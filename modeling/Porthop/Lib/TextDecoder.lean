import Mathlib.Data.List.Basic
import Mathlib.Data.UInt

/- The decoder of UTF-8 that never fails and may be fed in pieces, as the Encoding Standard has
   it: what cannot be read becomes a replacement character, and a mark of the byte order is
   dropped from the start.

   `decode_append` is what makes it a stream: two calls give what one gives for the joined
   bytes. `decode_encode` is what makes it UTF-8. -/
namespace Porthop

namespace TextDecoder

def replacement : Char := Char.ofNat 0xfffd

def byteOrderMark : Char := Char.ofNat 0xfeff

/-- In the middle of a character: the bits so far, the bytes that are missing, and the bounds of
    the next one, which exclude overlong forms and surrogates. -/
structure Handler where
  codePoint : Nat
  needed : Nat
  lower : UInt8
  upper : UInt8
  deriving DecidableEq

def ground : Handler := ⟨0, 0, 0x80, 0xbf⟩

def start (b : UInt8) : Handler × List Char :=
  if b ≤ 0x7f then (ground, [Char.ofNat b.toNat])
  else if 0xc2 ≤ b ∧ b ≤ 0xdf then (⟨b.toNat - 0xc0, 1, 0x80, 0xbf⟩, [])
  else if 0xe0 ≤ b ∧ b ≤ 0xef then
    (⟨b.toNat - 0xe0, 2, if b = 0xe0 then 0xa0 else 0x80, if b = 0xed then 0x9f else 0xbf⟩, [])
  else if 0xf0 ≤ b ∧ b ≤ 0xf4 then
    (⟨b.toNat - 0xf0, 3, if b = 0xf0 then 0x90 else 0x80, if b = 0xf4 then 0x8f else 0xbf⟩, [])
  else (ground, [replacement])

/-- A byte that does not go on with a character breaks it off and is read again. -/
def handle (h : Handler) (b : UInt8) : Handler × List Char :=
  if h.needed = 0 then start b
  else if b < h.lower ∨ h.upper < b then ((start b).1, replacement :: (start b).2)
  else
    let codePoint := h.codePoint * 64 + (b.toNat - 0x80)
    if h.needed = 1 then (ground, [Char.ofNat codePoint])
    else (⟨codePoint, h.needed - 1, 0x80, 0xbf⟩, [])

def run : Handler → List UInt8 → Handler × List Char
  | h, [] => (h, [])
  | h, b :: bs =>
    let rest := run (handle h b).1 bs
    (rest.1, (handle h b).2 ++ rest.2)

/-- What the end of the bytes makes of an unfinished character. -/
def flush (h : Handler) : List Char := if h.needed = 0 then [] else [replacement]

/-- The first character is dropped if it is the mark. -/
def serialize (bomSeen : Bool) (cs : List Char) : Bool × List Char :=
  match bomSeen, cs with
  | true, cs => (true, cs)
  | false, [] => (false, [])
  | false, c :: cs => (true, if c = byteOrderMark then cs else c :: cs)

end TextDecoder

/-- What one decoder keeps between calls. -/
structure TextDecoder where
  handler : TextDecoder.Handler
  bomSeen : Bool
  doNotFlush : Bool
  deriving DecidableEq

namespace TextDecoder

def new : TextDecoder := ⟨ground, false, false⟩

/-- After a call that did not stream, the next one starts afresh. -/
def resumed (d : TextDecoder) : TextDecoder := if d.doNotFlush then d else new

def decode (d : TextDecoder) (bytes : List UInt8) (stream : Bool) : List Char × TextDecoder :=
  let read := run d.resumed.handler bytes
  let out := if stream then read.2 else read.2 ++ flush read.1
  let shown := serialize d.resumed.bomSeen out
  (shown.2, ⟨read.1, shown.1, stream⟩)

/-! ## Pieces -/

theorem run_append (h : Handler) (bs cs : List UInt8) : run h (bs ++ cs) =
    ((run (run h bs).1 cs).1, (run h bs).2 ++ (run (run h bs).1 cs).2) := by
  induction bs generalizing h with
  | nil => rfl
  | cons b bs ih =>
    rw [List.cons_append, run, ih]
    simp only [run, List.append_assoc]

theorem serialize_append (bomSeen : Bool) (xs ys : List Char) : serialize bomSeen (xs ++ ys) =
    ((serialize (serialize bomSeen xs).1 ys).1,
      (serialize bomSeen xs).2 ++ (serialize (serialize bomSeen xs).1 ys).2) := by
  cases bomSeen with
  | true => rfl
  | false =>
    cases xs with
    | nil => rfl
    | cons x xs =>
      show (true, if x = byteOrderMark then xs ++ ys else x :: (xs ++ ys)) =
        (true, (if x = byteOrderMark then xs else x :: xs) ++ ys)
      split
      · rfl
      · rfl

theorem resumed_streamed (h : Handler) (bomSeen : Bool) :
    resumed ⟨h, bomSeen, true⟩ = ⟨h, bomSeen, true⟩ := rfl

/-- Two calls, the first of which streams, give what one gives for the joined bytes. -/
theorem decode_append (d : TextDecoder) (bs cs : List UInt8) (stream : Bool) :
    d.decode (bs ++ cs) stream =
      ((d.decode bs true).1 ++ ((d.decode bs true).2.decode cs stream).1,
        ((d.decode bs true).2.decode cs stream).2) := by
  cases stream with
  | true =>
    simp only [decode, run_append, serialize_append, resumed_streamed, if_true]
  | false =>
    simp only [decode, run_append, serialize_append, resumed_streamed, if_true,
      Bool.false_eq_true, if_false, List.append_assoc]

/-- One call for each piece. -/
def streamed (d : TextDecoder) : List (List UInt8) → List Char × TextDecoder
  | [] => ([], d)
  | piece :: pieces =>
    let first := d.decode piece true
    let rest := streamed first.2 pieces
    (first.1 ++ rest.1, rest.2)

theorem streamed_append (d : TextDecoder) (ps qs : List (List UInt8)) : d.streamed (ps ++ qs) =
    ((d.streamed ps).1 ++ ((d.streamed ps).2.streamed qs).1,
      ((d.streamed ps).2.streamed qs).2) := by
  induction ps generalizing d with
  | nil => rfl
  | cons p ps ih =>
    rw [List.cons_append, streamed, ih]
    simp only [streamed, List.append_assoc]

theorem decode_nil (d : TextDecoder) : (d.decode [] true).1 = [] := by
  simp only [decode, run, if_true]
  cases d.resumed.bomSeen with
  | true => rfl
  | false => rfl

/-- The pieces give what the joined bytes give. -/
theorem streamed_join (d : TextDecoder) (pieces : List (List UInt8)) :
    (d.streamed pieces).1 = (d.decode pieces.flatten true).1 := by
  induction pieces generalizing d with
  | nil => exact (decode_nil d).symm
  | cons piece pieces ih =>
    rw [List.flatten_cons, decode_append, ← ih]
    rfl

theorem streamed_flush (d : TextDecoder) (pieces : List (List UInt8)) :
    (d.streamed pieces).1 ++ ((d.streamed pieces).2.decode [] false).1 =
      (d.decode pieces.flatten false).1 := by
  induction pieces generalizing d with
  | nil => rfl
  | cons piece pieces ih =>
    rw [List.flatten_cons, decode_append, ← ih, ← List.append_assoc]
    rfl

theorem serialize_flush (bomSeen : Bool) (h : Handler) :
    (serialize bomSeen (flush h)).2 = flush h := by
  rw [flush]
  cases bomSeen with
  | true => rfl
  | false =>
    split
    · rfl
    · show (if replacement = byteOrderMark then [] else [replacement]) = _
      exact if_neg (by decide)

/-- The end of the bytes shows as one more replacement character, or not at all. -/
theorem decode_end (d : TextDecoder) (bytes : List UInt8) :
    (d.decode bytes false).1 =
      (d.decode bytes true).1 ++ flush (run d.resumed.handler bytes).1 := by
  simp only [decode, Bool.false_eq_true, if_false, if_true, serialize_append, serialize_flush]

/-! ## Texts -/

theorem ofNat_toNat (c : Char) : Char.ofNat c.val.toNat = c := Char.ofNat_toNat c

theorem toNat_ofNat {n : Nat} (h : n < 256) : (UInt8.ofNat n).toNat = n := by
  rw [UInt8.toNat_ofNat']
  exact Nat.mod_eq_of_lt h

/-- A byte within the bounds goes on with the character. -/
theorem handle_within {h : Handler} {n : Nat} (hn : n < 256) (hneeded : h.needed ≠ 0)
    (hlow : h.lower.toNat ≤ n) (hhigh : n ≤ h.upper.toNat) : handle h (UInt8.ofNat n) =
      if h.needed = 1 then (ground, [Char.ofNat (h.codePoint * 64 + (n - 0x80))])
      else (⟨h.codePoint * 64 + (n - 0x80), h.needed - 1, 0x80, 0xbf⟩, []) := by
  have hbounds : ¬(UInt8.ofNat n < h.lower ∨ h.upper < UInt8.ofNat n) := by
    rw [UInt8.lt_iff_toNat_lt, UInt8.lt_iff_toNat_lt, toNat_ofNat hn]
    omega
  rw [handle, if_neg hneeded, if_neg hbounds, toNat_ofNat hn]

theorem start_ofNat {n : Nat} (hn : n < 256) : start (UInt8.ofNat n) =
    if n ≤ 0x7f then (ground, [Char.ofNat n])
    else if 0xc2 ≤ n ∧ n ≤ 0xdf then (⟨n - 0xc0, 1, 0x80, 0xbf⟩, [])
    else if 0xe0 ≤ n ∧ n ≤ 0xef then
      (⟨n - 0xe0, 2, if n = 0xe0 then 0xa0 else 0x80, if n = 0xed then 0x9f else 0xbf⟩, [])
    else if 0xf0 ≤ n ∧ n ≤ 0xf4 then
      (⟨n - 0xf0, 3, if n = 0xf0 then 0x90 else 0x80, if n = 0xf4 then 0x8f else 0xbf⟩, [])
    else (ground, [replacement]) := by
  have heq : ∀ m : UInt8, UInt8.ofNat n = m ↔ n = m.toNat := by
    intro m
    rw [← UInt8.toNat_inj, toNat_ofNat hn]
  simp only [start, UInt8.le_iff_toNat_le, toNat_ofNat hn, heq]
  rfl

theorem run_cons {h h' : Handler} {b : UInt8} {out : List Char} (hb : handle h b = (h', out))
    (bs : List UInt8) : run h (b :: bs) = ((run h' bs).1, out ++ (run h' bs).2) := by
  rw [run, hb]

/-- The last byte of a character, and one before it. -/
theorem handle_last {codePoint n : Nat} {lower upper : UInt8} (hn : n < 256)
    (hlow : lower.toNat ≤ n) (hhigh : n ≤ upper.toNat) :
    handle ⟨codePoint, 1, lower, upper⟩ (UInt8.ofNat n) =
      (ground, [Char.ofNat (codePoint * 64 + (n - 0x80))]) :=
  handle_within hn (by decide : (1 : Nat) ≠ 0) hlow hhigh

theorem handle_inner {codePoint needed n : Nat} {lower upper : UInt8} (hn : n < 256)
    (hneeded : 2 ≤ needed) (hlow : lower.toNat ≤ n) (hhigh : n ≤ upper.toNat) :
    handle ⟨codePoint, needed, lower, upper⟩ (UInt8.ofNat n) =
      (⟨codePoint * 64 + (n - 0x80), needed - 1, 0x80, 0xbf⟩, []) := by
  rw [handle_within hn (by show needed ≠ 0; omega) hlow hhigh]
  exact if_neg (by show needed ≠ 1; omega)

theorem run_last {codePoint n v : Nat} (hn : 0x80 ≤ n ∧ n ≤ 0xbf)
    (hv : codePoint * 64 + (n - 0x80) = v) :
    run ⟨codePoint, 1, 0x80, 0xbf⟩ [UInt8.ofNat n] = (ground, [Char.ofNat v]) := by
  rw [run_cons (handle_last (by omega) hn.1 hn.2), hv]
  rfl

theorem run_ground (b : UInt8) (bs : List UInt8) :
    run ground (b :: bs) = ((run (start b).1 bs).1, (start b).2 ++ (run (start b).1 bs).2) := by
  have hground : handle ground b = start b := by
    rw [handle]
    exact if_pos rfl
  rw [run, hground]

/-- The bytes of a character are read as the character. -/
theorem run_encode (c : Char) : run ground (String.utf8EncodeChar c) = (ground, [c]) := by
  have hvalid : c.val.toNat < 0xd800 ∨ 0xdfff < c.val.toNat ∧ c.val.toNat < 0x110000 := c.valid
  have hchar := ofNat_toNat c
  unfold String.utf8EncodeChar
  generalize c.val.toNat = v at hvalid hchar
  by_cases hone : v ≤ 0x7f
  · simp only [if_pos hone]
    rw [run_ground, start_ofNat (by omega), if_pos hone, hchar]
    rfl
  by_cases htwo : v ≤ 0x7ff
  · simp only [if_neg hone, if_pos htwo]
    rw [run_ground, start_ofNat (by omega), if_neg (by omega), if_pos (by omega),
      run_last (v := v) (by omega) (by omega), hchar]
    rfl
  by_cases hthree : v ≤ 0xffff
  · simp only [if_neg hone, if_neg htwo, if_pos hthree]
    rw [run_ground, start_ofNat (by omega), if_neg (by omega), if_neg (by omega),
      if_pos (by omega)]
    dsimp only
    rw [run_cons (handle_inner (by omega) (Nat.le_refl 2) ?_ ?_),
      run_last (v := v) (by omega) (by omega), hchar]
    · rfl
    · split
      · show 0xa0 ≤ _
        omega
      · show 0x80 ≤ _
        omega
    · split
      · show _ ≤ 0x9f
        omega
      · show _ ≤ 0xbf
        omega
  · simp only [if_neg hone, if_neg htwo, if_neg hthree]
    rw [run_ground, start_ofNat (by omega), if_neg (by omega), if_neg (by omega),
      if_neg (by omega), if_pos (by omega)]
    dsimp only
    rw [run_cons (handle_inner (by omega) (by omega) ?_ ?_),
      run_cons (handle_inner (by omega) (Nat.le_refl 2) ?_ ?_),
      run_last (v := v) (by omega) (by omega), hchar]
    · rfl
    · show 0x80 ≤ _
      omega
    · show _ ≤ 0xbf
      omega
    · split
      · show 0x90 ≤ _
        omega
      · show 0x80 ≤ _
        omega
    · split
      · show _ ≤ 0x8f
        omega
      · show _ ≤ 0xbf
        omega

theorem run_text (cs : List Char) :
    run ground (cs.flatMap String.utf8EncodeChar) = (ground, cs) := by
  induction cs with
  | nil => rfl
  | cons c cs ih => rw [List.flatMap_cons, run_append, run_encode, ih, List.singleton_append]

/-- A text that does not begin with the mark is read as it is. -/
theorem decode_encode {cs : List Char} (h : cs.head? ≠ some byteOrderMark) :
    (new.decode (cs.flatMap String.utf8EncodeChar) false).1 = cs := by
  have hread : run new.resumed.handler (cs.flatMap String.utf8EncodeChar) = (ground, cs) :=
    run_text cs
  simp only [decode, hread, Bool.false_eq_true, if_false]
  cases cs with
  | nil => rfl
  | cons c cs =>
    have hc : c ≠ byteOrderMark := fun heq => h (by rw [heq]; rfl)
    show (if c = byteOrderMark then cs ++ [] else c :: (cs ++ [])) = c :: cs
    rw [if_neg hc, List.append_nil]

end TextDecoder

end Porthop
