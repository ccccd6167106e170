import Porthop.Lib.Lossy

/- The characters of bytes that are read as UTF-8 whatever they are, each with the bytes it
   was read from.

   A cut at any byte leaves the characters before it as they are; one that it breaks off
   becomes a replacement character. One-byte characters can be put between others without
   changing how those are read. -/
namespace Porthop.Utf8

structure Glyph where
  char : Char
  bytes : List UInt8
  deriving DecidableEq

def Glyph.size (g : Glyph) : Nat := g.bytes.length

/-- The fuel is the number of bytes that are left at most. -/
def glyphsFrom : Nat → List UInt8 → List Glyph
  | 0, _ => []
  | _ + 1, [] => []
  | fuel + 1, first :: bs =>
    let (c, n) := next first bs
    ⟨c, (first :: bs).take n⟩ :: glyphsFrom fuel ((first :: bs).drop n)

def glyphs (bs : List UInt8) : List Glyph := glyphsFrom bs.length bs

def chars (gs : List Glyph) : List Char := gs.map Glyph.char

def bytesOf (gs : List Glyph) : List UInt8 := gs.flatMap Glyph.bytes

def width (gs : List Glyph) : Nat := (bytesOf gs).length

/-- What is left of glyphs that are cut after `n` bytes. -/
def cut : Nat → List Glyph → List Glyph
  | _, [] => []
  | n, g :: gs =>
    if g.size ≤ n then g :: cut (n - g.size) gs
    else if n = 0 then [] else [⟨replacement, g.bytes.take n⟩]

/-! ## The bytes of a character -/

theorem follows_le (n : Nat) (low high : UInt8) (bs : List UInt8) :
    follows n low high bs ≤ n ∧ follows n low high bs ≤ bs.length := by
  induction bs generalizing n low high with
  | nil => cases n <;> exact ⟨Nat.zero_le _, Nat.zero_le _⟩
  | cons b bs ih =>
    cases n with
    | zero => exact ⟨Nat.zero_le _, Nat.zero_le _⟩
    | succ n =>
      unfold follows
      split
      · have h := ih n 0x80 0xbf
        rw [List.length_cons]
        omega
      · exact ⟨Nat.zero_le _, Nat.zero_le _⟩

theorem follows_take (n : Nat) (low high : UInt8) (bs : List UInt8) (j : Nat) :
    follows n low high (bs.take j) = min (follows n low high bs) j := by
  induction bs generalizing n low high j with
  | nil =>
    rw [List.take_nil]
    cases n <;> simp [follows]
  | cons b bs ih =>
    cases n with
    | zero => simp [follows]
    | succ n =>
      cases j with
      | zero => simp [follows]
      | succ j =>
        rw [List.take_succ_cons]
        unfold follows
        split
        · rw [ih]
          omega
        · simp

/-- The second byte of a character is never a one-byte character. -/
theorem continuation_low {first low high : UInt8} {n : Nat}
    (h : continuation first = some (n, low, high)) : 0x80 ≤ low := by
  unfold continuation at h
  repeat' split at h
  all_goals cases h
  all_goals decide

theorem follows_append {n : Nat} {low : UInt8} (hlow : 0x80 ≤ low) (high : UInt8)
    (bs : List UInt8) {y : UInt8} (hy : y < 0x80) (ys : List UInt8) :
    follows n low high (bs ++ y :: ys) = follows n low high bs := by
  induction bs generalizing n low high with
  | nil =>
    cases n with
    | zero => rfl
    | succ n =>
      rw [List.nil_append]
      unfold follows
      have hno : ¬(low ≤ y ∧ y ≤ high) := by
        rintro ⟨hle, -⟩
        have h1 := UInt8.le_trans hlow hle
        exact absurd hy (UInt8.not_lt.mpr h1)
      rw [if_neg hno]
  | cons b bs ih =>
    cases n with
    | zero => rfl
    | succ n =>
      rw [List.cons_append]
      unfold follows
      rw [ih (by decide)]

theorem next_size (first : UInt8) (bs : List UInt8) :
    1 ≤ (next first bs).2 ∧ (next first bs).2 ≤ bs.length + 1 := by
  unfold next
  split
  · exact ⟨Nat.le_refl 1, by omega⟩
  · rename_i n low high _
    have h := follows_le n low high bs
    exact ⟨by simp, by simpa using h.2⟩

/-- A character does not depend on what comes behind its bytes. -/
theorem next_take (first : UInt8) (bs : List UInt8) {j : Nat} (hj : (next first bs).2 ≤ j + 1) :
    next first (bs.take j) = next first bs := by
  unfold next at *
  cases hc : continuation first with
  | none => rfl
  | some t =>
    obtain ⟨n, low, high⟩ := t
    simp only [hc] at hj ⊢
    have hk : follows n low high (bs.take j) = follows n low high bs := by
      rw [follows_take]
      omega
    rw [hk, List.take_take, Nat.min_eq_left (by omega)]

/-- One that is broken off is replaced, and takes the bytes that are there. -/
theorem next_broken (first : UInt8) (bs : List UInt8) {j : Nat} (hj : j + 1 < (next first bs).2) :
    next first (bs.take j) = (replacement, j + 1) := by
  unfold next at *
  cases hc : continuation first with
  | none =>
    simp only [hc] at hj
    omega
  | some t =>
    obtain ⟨n, low, high⟩ := t
    simp only [hc] at hj ⊢
    have hle := follows_le n low high bs
    have hk : follows n low high (bs.take j) = j := by
      rw [follows_take]
      omega
    rw [hk, if_neg (by omega)]

theorem next_append (first : UInt8) (bs : List UInt8) {y : UInt8} (hy : y < 0x80)
    (ys : List UInt8) : next first (bs ++ y :: ys) = next first bs := by
  unfold next
  cases hc : continuation first with
  | none => rfl
  | some t =>
    obtain ⟨n, low, high⟩ := t
    have hle := follows_le n low high bs
    simp only [follows_append (continuation_low hc) high bs hy ys]
    rw [List.take_append_of_le_length hle.2]

/-! ## Glyphs -/

theorem glyphsFrom_enough {m n : Nat} {bs : List UInt8} (hm : bs.length ≤ m) (hn : bs.length ≤ n) :
    glyphsFrom m bs = glyphsFrom n bs := by
  induction m generalizing n bs with
  | zero =>
    have hnil : bs = [] := List.length_eq_zero_iff.mp (Nat.le_zero.mp hm)
    subst hnil
    cases n <;> rfl
  | succ m ih =>
    cases bs with
    | nil => cases n <;> rfl
    | cons first bs =>
      cases n with
      | zero => simp at hn
      | succ n =>
        have h := next_size first bs
        rw [List.length_cons] at hm hn
        have hdrop : ((first :: bs).drop (next first bs).2).length ≤ bs.length := by
          rw [List.length_drop, List.length_cons]
          omega
        unfold glyphsFrom
        dsimp only
        rw [ih (by omega) (by omega : ((first :: bs).drop (next first bs).2).length ≤ n)]

@[simp] theorem glyphs_nil : glyphs [] = [] := rfl

theorem glyphs_cons (first : UInt8) (bs : List UInt8) :
    glyphs (first :: bs) =
      ⟨(next first bs).1, (first :: bs).take (next first bs).2⟩ ::
        glyphs ((first :: bs).drop (next first bs).2) := by
  have h := next_size first bs
  have hdrop : ((first :: bs).drop (next first bs).2).length ≤ bs.length := by
    rw [List.length_drop, List.length_cons]
    omega
  calc glyphs (first :: bs)
    _ = ⟨(next first bs).1, (first :: bs).take (next first bs).2⟩ ::
        glyphsFrom bs.length ((first :: bs).drop (next first bs).2) := rfl
    _ = _ := by rw [glyphsFrom_enough hdrop (Nat.le_refl _)]; rfl

theorem chars_glyphs (bs : List UInt8) : chars (glyphs bs) = replaceFrom bs.length bs := by
  have hfuel : ∀ (fuel : Nat) (bs : List UInt8),
      chars (glyphsFrom fuel bs) = replaceFrom fuel bs := by
    intro fuel
    induction fuel with
    | zero => intro bs; rfl
    | succ fuel ih =>
      intro bs
      cases bs with
      | nil => rfl
      | cons first bs =>
        unfold glyphsFrom replaceFrom
        dsimp only
        rw [← ih]
        rfl
  exact hfuel bs.length bs

/-- Every step reads one glyph off the bytes. -/
theorem glyphs_induction {P : List UInt8 → Prop} (hnil : P [])
    (hcons : ∀ first bs, P ((first :: bs).drop (next first bs).2) → P (first :: bs))
    (bs : List UInt8) : P bs := by
  induction h : bs.length using Nat.strong_induction_on generalizing bs with
  | _ n ih =>
    cases bs with
    | nil => exact hnil
    | cons first bs =>
      apply hcons
      have hsize := next_size first bs
      refine ih _ ?_ _ rfl
      rw [← h, List.length_drop, List.length_cons]
      omega

theorem bytes_ne_nil {bs : List UInt8} {g : Glyph} (h : g ∈ glyphs bs) : g.bytes ≠ [] := by
  induction bs using glyphs_induction with
  | hnil => simp at h
  | hcons first bs ih =>
    rw [glyphs_cons] at h
    rcases List.mem_cons.mp h with rfl | hrest
    · have hsize := next_size first bs
      obtain ⟨k, hk⟩ : ∃ k, (next first bs).2 = k + 1 := ⟨(next first bs).2 - 1, by omega⟩
      rw [hk, List.take_succ_cons]
      exact List.cons_ne_nil _ _
    · exact ih hrest

theorem width_append (gs hs : List Glyph) : width (gs ++ hs) = width gs + width hs := by
  rw [width, bytesOf, List.flatMap_append, List.length_append]
  rfl

theorem width_cons (g : Glyph) (gs : List Glyph) : width (g :: gs) = g.size + width gs := by
  rw [width, bytesOf, List.flatMap_cons, List.length_append]
  rfl

@[simp] theorem cut_nil (n : Nat) : cut n [] = [] := by
  unfold cut
  rfl

theorem cut_cons {n : Nat} {g : Glyph} (h : g.size ≤ n) (gs : List Glyph) :
    cut n (g :: gs) = g :: cut (n - g.size) gs := by
  rw [cut, if_pos h]

theorem cut_broken {n : Nat} {g : Glyph} (h : n < g.size) (gs : List Glyph) :
    cut n (g :: gs) = if n = 0 then [] else [⟨replacement, g.bytes.take n⟩] := by
  rw [cut, if_neg (Nat.not_le.mpr h)]

/-- What is whole before the cut, and what is behind. -/
theorem cut_append {n : Nat} {gs : List Glyph} (h : width gs ≤ n) (hs : List Glyph) :
    cut n (gs ++ hs) = gs ++ cut (n - width gs) hs := by
  induction gs generalizing n with
  | nil => rfl
  | cons g gs ih =>
    rw [width_cons] at h
    rw [List.cons_append, cut_cons (by omega), ih (by omega), width_cons, List.cons_append,
      Nat.sub_sub]

theorem cut_within {n : Nat} {gs : List Glyph} (h : n < width gs) (hs : List Glyph) :
    cut n (gs ++ hs) = cut n gs := by
  induction gs generalizing n with
  | nil => exact absurd h (Nat.not_lt_zero n)
  | cons g gs ih =>
    rw [width_cons] at h
    rw [List.cons_append]
    by_cases hg : g.size ≤ n
    · rw [cut_cons hg, cut_cons hg, ih (by omega)]
    · rw [cut_broken (Nat.not_le.mp hg), cut_broken (Nat.not_le.mp hg)]

theorem cut_zero {gs : List Glyph} (h : ∀ g ∈ gs, g.bytes ≠ []) : cut 0 gs = [] := by
  cases gs with
  | nil => exact cut_nil 0
  | cons g gs =>
    have hsize : 0 < g.size := List.length_pos_iff.mpr (h g List.mem_cons_self)
    rw [cut_broken hsize, if_pos rfl]

/-- Bytes that are cut off have the glyphs that are cut off. -/
theorem glyphs_take (bs : List UInt8) (n : Nat) : glyphs (bs.take n) = cut n (glyphs bs) := by
  induction bs using glyphs_induction generalizing n with
  | hnil => rw [List.take_nil, glyphs_nil, cut_nil]
  | hcons first bs ih =>
    have hsize := next_size first bs
    have hglyph : Glyph.size ⟨(next first bs).1, (first :: bs).take (next first bs).2⟩ =
        (next first bs).2 := by
      rw [Glyph.size, List.length_take, List.length_cons]
      omega
    rw [glyphs_cons]
    cases n with
    | zero =>
      rw [List.take_zero, glyphs_nil, cut_broken, if_pos rfl]
      rw [hglyph]
      exact hsize.1
    | succ j =>
      rw [List.take_succ_cons, glyphs_cons]
      by_cases hwhole : (next first bs).2 ≤ j + 1
      · rw [next_take first bs hwhole, cut_cons]
        · rw [hglyph, ← ih, ← List.take_succ_cons, List.take_take, Nat.min_eq_left hwhole,
            List.drop_take]
        · rw [hglyph]
          exact hwhole
      · rw [next_broken first bs (Nat.not_le.mp hwhole), cut_broken]
        · have hnil : ((first :: bs.take j).drop (j + 1)) = [] := by
            apply List.drop_eq_nil_of_le
            rw [List.length_cons, List.length_take]
            omega
          dsimp only
          rw [hnil, glyphs_nil, if_neg (Nat.succ_ne_zero j), List.take_take,
            Nat.min_eq_left (by omega), List.take_succ_cons, List.take_succ_cons, List.take_take,
            Nat.min_self]
        · rw [hglyph]
          exact Nat.not_le.mp hwhole

/-! ## Glyphs side by side -/

/-- These are the glyphs of their bytes. -/
def Proper (gs : List Glyph) : Prop := glyphs (bytesOf gs) = gs

theorem bytesOf_append (gs hs : List Glyph) : bytesOf (gs ++ hs) = bytesOf gs ++ bytesOf hs :=
  List.flatMap_append

theorem Proper.left {gs hs : List Glyph} (h : Proper (gs ++ hs)) : Proper gs := by
  have htake : (bytesOf (gs ++ hs)).take (width gs) = bytesOf gs := by
    rw [bytesOf_append]
    exact List.take_left
  have hne : ∀ g ∈ gs ++ hs, g.bytes ≠ [] := by
    intro g hg
    rw [← h] at hg
    exact bytes_ne_nil hg
  calc glyphs (bytesOf gs)
    _ = glyphs ((bytesOf (gs ++ hs)).take (width gs)) := by rw [htake]
    _ = cut (width gs) (gs ++ hs) := by rw [glyphs_take, h]
    _ = gs ++ cut 0 hs := by rw [cut_append (Nat.le_refl _), Nat.sub_self]
    _ = gs := by rw [cut_zero fun g hg => hne g (List.mem_append_right gs hg), List.append_nil]

theorem Proper.tail {g : Glyph} {gs : List Glyph} (h : Proper (g :: gs)) : Proper gs := by
  unfold Proper at h
  cases hbytes : bytesOf (g :: gs) with
  | nil =>
    rw [hbytes] at h
    cases h
  | cons first bs =>
    rw [hbytes, glyphs_cons] at h
    obtain ⟨hg, hrest⟩ := List.cons.inj h
    have hsplit : g.bytes ++ bytesOf gs = first :: bs := hbytes
    have hsize := next_size first bs
    have hlength : g.bytes.length = (next first bs).2 := by
      rw [← hg]
      change List.length (List.take _ _) = _
      rw [List.length_take, List.length_cons]
      omega
    have hdrop : (first :: bs).drop (next first bs).2 = bytesOf gs := by
      rw [← hsplit, ← hlength]
      exact List.drop_left
    rw [hdrop] at hrest
    exact hrest

theorem Proper.right {gs hs : List Glyph} (h : Proper (gs ++ hs)) : Proper hs := by
  induction gs with
  | nil => exact h
  | cons g gs ih => exact ih h.tail

/-- A one-byte character. -/
def ascii (c : Char) : Glyph := ⟨c, [c.toNat.toUInt8]⟩

theorem next_ascii {c : Char} (h : c.toNat < 0x80) (bs : List UInt8) :
    next c.toNat.toUInt8 bs = (c, 1) := by
  have hbyte : c.toNat.toUInt8 < 0x80 := by
    rw [UInt8.lt_iff_toNat_lt, Nat.toUInt8, UInt8.toNat_ofNat']
    exact Nat.lt_of_le_of_lt (Nat.mod_le _ _) h
  have hcontinuation : continuation c.toNat.toUInt8 = some (0, 0x80, 0xbf) := by
    rw [continuation, if_pos hbyte]
  have hencoded : MessagePack.ofUtf8 [c.toNat.toUInt8] = some (String.ofList [c]) := by
    have hsize : c.utf8Size = 1 := by
      rw [Char.utf8Size_eq_one_iff, UInt32.le_iff_toNat_le]
      change c.toNat ≤ 127
      omega
    have hutf8 : MessagePack.utf8 (String.ofList [c]) = [c.toNat.toUInt8] := by
      rw [utf8_ascii]
      · rw [String.toList_ofList]
        rfl
      · intro d hd
        rw [String.toList_ofList] at hd
        rw [List.mem_singleton.mp hd, hsize]
    rw [← hutf8, MessagePack.ofUtf8_utf8]
  unfold next
  rw [hcontinuation]
  simp [follows, hencoded]

theorem Proper.ascii_cons {c : Char} (h : c.toNat < 0x80) {gs : List Glyph} (hgs : Proper gs) :
    Proper (ascii c :: gs) := by
  have hbytes : bytesOf (ascii c :: gs) = c.toNat.toUInt8 :: bytesOf gs := rfl
  rw [Proper, hbytes, glyphs_cons, next_ascii h]
  change _ :: glyphs (bytesOf gs) = _
  rw [hgs]
  rfl

theorem Proper.append_ascii {gs : List Glyph} (hgs : Proper gs) {c : Char} (h : c.toNat < 0x80)
    {hs : List Glyph} (hhs : Proper (ascii c :: hs)) : Proper (gs ++ ascii c :: hs) := by
  have hbyte : c.toNat.toUInt8 < 0x80 := by
    rw [UInt8.lt_iff_toNat_lt, Nat.toUInt8, UInt8.toNat_ofNat']
    exact Nat.lt_of_le_of_lt (Nat.mod_le _ _) h
  have happend : ∀ bs : List UInt8, glyphs (bs ++ bytesOf (ascii c :: hs)) =
      glyphs bs ++ glyphs (bytesOf (ascii c :: hs)) := by
    intro bs
    induction bs using glyphs_induction with
    | hnil => rfl
    | hcons first bs ih =>
      have hsize := next_size first bs
      have hnext : next first (bs ++ bytesOf (ascii c :: hs)) = next first bs :=
        next_append first bs hbyte _
      rw [List.cons_append, glyphs_cons, hnext, glyphs_cons first bs, List.cons_append, ← ih,
        ← List.cons_append, List.take_append_of_le_length (by rw [List.length_cons]; omega),
        List.drop_append_of_le_length (by rw [List.length_cons]; omega)]
  rw [Proper, bytesOf_append, happend, hgs, hhs]

/-! ## Valid text -/

theorem byte_toNat {n : Nat} (h : n < 256) : (UInt8.ofNat n).toNat = n := by
  rw [UInt8.toNat_ofNat']
  exact Nat.mod_eq_of_lt h

theorem follows_encoded {b : UInt8} {bs : List UInt8} {n : Nat} {low high : UInt8}
    (hlow : low ≤ b) (hhigh : b ≤ high) :
    follows (n + 1) low high (b :: bs) = follows n 0x80 0xbf bs + 1 := by
  rw [follows, if_pos ⟨hlow, hhigh⟩]

theorem continues_ofNat (n : Nat) : (0x80 : UInt8) ≤ UInt8.ofNat (n % 64 + 128) ∧
    UInt8.ofNat (n % 64 + 128) ≤ (0xbf : UInt8) := by
  have h := byte_toNat (n := n % 64 + 128) (by omega)
  constructor
  · rw [UInt8.le_iff_toNat_le, h]
    exact Nat.le_add_left _ _
  · rw [UInt8.le_iff_toNat_le, h]
    change _ ≤ 191
    omega

theorem continuation_two {b : UInt8} (hlow : 194 ≤ b.toNat) (hhigh : b.toNat ≤ 223) :
    continuation b = some (1, 0x80, 0xbf) := by
  rw [continuation, if_neg, if_pos]
  · simp only [UInt8.le_iff_toNat_le, UInt8.reduceToNat]
    exact ⟨hlow, hhigh⟩
  · simp only [UInt8.lt_iff_toNat_lt, UInt8.reduceToNat]
    omega

theorem continuation_three {b : UInt8} (hlow : 225 ≤ b.toNat) (hhigh : b.toNat ≤ 239)
    (hne : b.toNat ≠ 237) : continuation b = some (2, 0x80, 0xbf) := by
  rw [continuation, if_neg, if_neg, if_neg, if_neg, if_pos]
  · simp only [UInt8.le_iff_toNat_le, UInt8.reduceToNat]
    exact ⟨hlow, hhigh⟩
  · rw [← UInt8.toNat_inj]
    exact hne
  · rw [← UInt8.toNat_inj]
    simp only [UInt8.reduceToNat]
    omega
  · simp only [UInt8.le_iff_toNat_le, UInt8.reduceToNat]
    omega
  · simp only [UInt8.lt_iff_toNat_lt, UInt8.reduceToNat]
    omega

theorem continuation_four {b : UInt8} (hlow : 241 ≤ b.toNat) (hhigh : b.toNat ≤ 243) :
    continuation b = some (3, 0x80, 0xbf) := by
  rw [continuation, if_neg, if_neg, if_neg, if_neg, if_neg, if_neg, if_pos]
  · simp only [UInt8.le_iff_toNat_le, UInt8.reduceToNat]
    exact ⟨hlow, hhigh⟩
  · rw [← UInt8.toNat_inj]
    simp only [UInt8.reduceToNat]
    omega
  · simp only [UInt8.le_iff_toNat_le, UInt8.reduceToNat]
    omega
  · rw [← UInt8.toNat_inj]
    simp only [UInt8.reduceToNat]
    omega
  · rw [← UInt8.toNat_inj]
    simp only [UInt8.reduceToNat]
    omega
  · simp only [UInt8.le_iff_toNat_le, UInt8.reduceToNat]
    omega
  · simp only [UInt8.lt_iff_toNat_lt, UInt8.reduceToNat]
    omega

/-- Two bytes that go on after the second one. -/
theorem follows_three {b : UInt8} {low high : UInt8} (hlow : low ≤ b) (hhigh : b ≤ high)
    (m : Nat) (tail : List UInt8) :
    follows 2 low high (b :: UInt8.ofNat (m % 64 + 128) :: tail) = 2 := by
  rw [follows_encoded hlow hhigh, follows_encoded (continues_ofNat m).1 (continues_ofNat m).2]
  rfl

theorem follows_four {b : UInt8} {low high : UInt8} (hlow : low ≤ b) (hhigh : b ≤ high)
    (l m : Nat) (tail : List UInt8) :
    follows 3 low high (b :: UInt8.ofNat (l % 64 + 128) :: UInt8.ofNat (m % 64 + 128) :: tail)
      = 3 := by
  rw [follows_encoded hlow hhigh, follows_three (continues_ofNat l).1 (continues_ofNat l).2]

/-- The bytes of a character are the ones it takes. -/
theorem encoded (c : Char) : ∃ first more low high, String.utf8EncodeChar c = first :: more ∧
    continuation first = some (more.length, low, high) ∧
    ∀ tail, follows more.length low high (more ++ tail) = more.length := by
  have hvalid := c.valid
  unfold UInt32.isValidChar Nat.isValidChar at hvalid
  unfold String.utf8EncodeChar
  generalize hv : c.val.toNat = v at *
  dsimp only
  split
  · refine ⟨_, _, 0x80, 0xbf, rfl, ?_, fun tail => rfl⟩
    have hb := byte_toNat (n := v) (by omega)
    rw [continuation, if_pos]
    · rfl
    · simp only [UInt8.lt_iff_toNat_lt, hb, UInt8.reduceToNat]
      omega
  · split
    · have hb := byte_toNat (n := v / 64 % 32 + 192) (by omega)
      refine ⟨_, _, 0x80, 0xbf, rfl, continuation_two (by omega) (by omega), fun tail => ?_⟩
      have ht := continues_ofNat v
      exact follows_encoded ht.1 ht.2
    · split
      · have hb := byte_toNat (n := v / 4096 % 16 + 224) (by omega)
        have hm := byte_toNat (n := v / 64 % 64 + 128) (by omega)
        -- the second byte has bounds of its own where the first one is the least or 0xed
        by_cases hleast : v / 4096 = 0
        · have hfirst : UInt8.ofNat (v / 4096 % 16 + 224) = 0xe0 := by rw [hleast]; rfl
          refine ⟨_, _, 0xa0, 0xbf, rfl, by rw [hfirst]; rfl, fun tail => ?_⟩
          apply follows_three
          · simp only [UInt8.le_iff_toNat_le, hm, UInt8.reduceToNat]
            omega
          · exact (continues_ofNat _).2
        · by_cases hmiddle : v / 4096 = 13
          · have hfirst : UInt8.ofNat (v / 4096 % 16 + 224) = 0xed := by rw [hmiddle]; rfl
            refine ⟨_, _, 0x80, 0x9f, rfl, by rw [hfirst]; rfl, fun tail => ?_⟩
            apply follows_three (continues_ofNat _).1
            simp only [UInt8.le_iff_toNat_le, hm, UInt8.reduceToNat]
            omega
          · refine ⟨_, _, 0x80, 0xbf, rfl, continuation_three (by omega) (by omega) (by omega),
              fun tail => ?_⟩
            exact follows_three (continues_ofNat _).1 (continues_ofNat _).2 v tail
      · have hb := byte_toNat (n := v / 262144 % 8 + 240) (by omega)
        have hm := byte_toNat (n := v / 4096 % 64 + 128) (by omega)
        by_cases hleast : v / 262144 = 0
        · have hfirst : UInt8.ofNat (v / 262144 % 8 + 240) = 0xf0 := by rw [hleast]; rfl
          refine ⟨_, _, 0x90, 0xbf, rfl, by rw [hfirst]; rfl, fun tail => ?_⟩
          apply follows_four
          · simp only [UInt8.le_iff_toNat_le, hm, UInt8.reduceToNat]
            omega
          · exact (continues_ofNat _).2
        · by_cases hlast : v / 262144 = 4
          · have hfirst : UInt8.ofNat (v / 262144 % 8 + 240) = 0xf4 := by rw [hlast]; rfl
            refine ⟨_, _, 0x80, 0x8f, rfl, by rw [hfirst]; rfl, fun tail => ?_⟩
            apply follows_four (continues_ofNat _).1
            simp only [UInt8.le_iff_toNat_le, hm, UInt8.reduceToNat]
            omega
          · refine ⟨_, _, 0x80, 0xbf, rfl, continuation_four (by omega) (by omega),
              fun tail => ?_⟩
            exact follows_four (continues_ofNat _).1 (continues_ofNat _).2 _ v tail

theorem utf8_flatMap (s : String) :
    MessagePack.utf8 s = s.toList.flatMap String.utf8EncodeChar := by
  have hbytes : s.toUTF8 = (s.toList.flatMap String.utf8EncodeChar).toByteArray := by
    rw [String.toUTF8_eq_toByteArray, ← List.utf8Encode, ← String.toByteArray_ofList,
      String.ofList_toList]
  rw [MessagePack.utf8, hbytes, List.toList_data_toByteArray]

/-- A character is read off its bytes, whatever follows. -/
theorem glyphs_encoded (c : Char) (bs : List UInt8) :
    glyphs (String.utf8EncodeChar c ++ bs) = ⟨c, String.utf8EncodeChar c⟩ :: glyphs bs := by
  obtain ⟨first, more, low, high, hencoded, hcontinuation, hfollows⟩ := encoded c
  have hdecoded : MessagePack.ofUtf8 (first :: more) = some (String.ofList [c]) := by
    have hutf8 : MessagePack.utf8 (String.ofList [c]) = first :: more := by
      rw [utf8_flatMap, String.toList_ofList, List.flatMap_singleton, hencoded]
    rw [← hutf8, MessagePack.ofUtf8_utf8]
  have hnext : next first (more ++ bs) = (c, more.length + 1) := by
    unfold next
    rw [hcontinuation]
    simp [hfollows, hdecoded]
  rw [hencoded, List.cons_append, glyphs_cons, hnext]
  simp

theorem fromUtf8Lossy_eq (bs : List UInt8) :
    fromUtf8Lossy bs = String.ofList (chars (glyphs bs)) := by
  unfold fromUtf8Lossy
  split
  · rename_i s hs
    have hbytes : bs = MessagePack.utf8 s := (MessagePack.utf8_of_ofUtf8 hs).symm
    have hchars : ∀ cs : List Char, chars (glyphs (cs.flatMap String.utf8EncodeChar)) = cs := by
      intro cs
      induction cs with
      | nil => rfl
      | cons c cs ih =>
        rw [List.flatMap_cons, glyphs_encoded]
        exact congrArg (c :: ·) ih
    rw [hbytes, utf8_flatMap, hchars, String.ofList_toList]
  · rw [chars_glyphs]

end Porthop.Utf8
