import Porthop.X11.Limits

/- How packets are built, and that they are framed.

   A rule for each access says what it needs of its buffer and what is known behind it. A
   draft is a packet that is being filled in: it has 32 bytes, its tag, and what its length
   field says so far; only a write at the length field changes that. -/
namespace Porthop.X11.Requests

open Crash Crash.Prog Buffer MessagePack

/-! ## Frames -/

def lengthField (little : Bool) (b : Bytes) : Nat := number little ((b.drop 4).take 4)

def isReply (b : Bytes) : Bool := b.head? == some 1

def isError (b : Bytes) : Bool := b.head? == some 0

/-- A reply has as many words behind its 32 bytes as its length field says; an event or an
    error has 32 bytes. -/
def Framed (little : Bool) (b : Bytes) : Prop :=
  b.length = if isReply b then 32 + 4 * lengthField little b else 32

structure Draft (little : Bool) (tag field : Nat) (b : Bytes) : Prop where
  length : b.length = 32
  head : b.head? = some (UInt8.ofNat tag)
  field : range b 4 8 = some (ordered little (be 4 field))

section
variable {little : Bool} {tag field i n : Nat} {b c items : Bytes}

theorem lengthField_eq (h : range b 4 8 = some (ordered little (be 4 field))) :
    lengthField little b = field % 2 ^ 32 := by
  unfold range at h
  split at h
  case isTrue =>
    unfold lengthField
    rw [Option.some.inj h]
    exact number_ordered little 4 field
  case isFalse => simp at h

/-- A write behind the length field or before it leaves the draft what it is. -/
theorem Draft.put (h : Draft little tag field b) (hc : put b i items = some c) (hi : 0 < i)
    (hother : i + items.length ≤ 4 ∨ 8 ≤ i) : Draft little tag field c where
  length := (length_put hc).trans h.length
  head := (head_put hc hi).trans h.head
  field := (range_put_other hc hother).trans h.field

theorem length_number (little : Bool) (k n : Nat) : (ordered little (be k n)).length = k := by
  rw [length_ordered, length_be]

theorem Draft.put_field (h : Draft little tag field b)
    (hc : Buffer.put b 4 (ordered little (be 4 n)) = some c) : Draft little tag n c where
  length := (length_put hc).trans h.length
  head := (head_put hc (by decide)).trans h.head
  field := by
    have hself := range_put_self hc
    rw [length_number] at hself
    exact hself

/-- A packet that is no error may be sent while a request is answered. -/
def Good (little : Bool) (b : Bytes) : Prop := Framed little b ∧ isError b = false

theorem Draft.good (h : Draft little tag field b) (htag : tag ≠ 0 ∧ tag < 256)
    (hfield : tag = 1 → field = 0) : Good little b := by
  have hbyte : ∀ k < 256, UInt8.ofNat tag = UInt8.ofNat k → tag = k := by
    intro k hk heq
    have hnat := congrArg UInt8.toNat heq
    rw [UInt8.toNat_ofNat', UInt8.toNat_ofNat', Nat.mod_eq_of_lt htag.2, Nat.mod_eq_of_lt hk] at hnat
    exact hnat
  constructor
  · unfold Framed
    split
    case isTrue hreply =>
      have hone : tag = 1 := by
        apply hbyte 1 (by decide)
        unfold isReply at hreply
        rw [h.head] at hreply
        simpa using hreply
      rw [h.length, lengthField_eq h.field, hfield hone, Nat.zero_mod, Nat.mul_zero]
    case isFalse => exact h.length
  · unfold isError
    rw [h.head]
    simp only [beq_eq_false_iff_ne, ne_eq, Option.some.injEq]
    exact fun heq => htag.1 (hbyte 0 (by decide) heq)

theorem Draft.error (h : Draft little 0 field b) : Framed little b := by
  have hreply : isReply b = false := by
    unfold isReply
    rw [h.head]
    rfl
  unfold Framed
  rw [hreply]
  exact h.length

/-- A reply with its data behind it. -/
theorem Draft.reply {words : Nat} (h : Draft little 1 words b) (hwords : words < 2 ^ 32)
    (data : Bytes) : Good little ((b ++ data).takeD (32 + 4 * words) 0) := by
  have hfilled : (b ++ data).takeD (32 + 4 * words) 0 = b ++ data.takeD (4 * words) 0 := by
    rw [← h.length, takeD_append]
  have hhead : (b ++ data.takeD (4 * words) 0).head? = some 1 := by
    rw [List.head?_append, h.head]
    rfl
  have hreply : isReply (b ++ data.takeD (4 * words) 0) = true := by
    unfold isReply
    rw [hhead]
    rfl
  have hfield : range (b ++ data.takeD (4 * words) 0) 4 8 = some (ordered little (be 4 words)) := by
    rw [range_append (by rw [h.length]; decide), h.field]
  rw [hfilled]
  constructor
  · unfold Framed
    rw [hreply, if_pos rfl, lengthField_eq hfield, Nat.mod_eq_of_lt hwords, List.length_append,
      h.length, List.takeD_length]
  · unfold isError
    rw [hhead]
    rfl

end

/-! ## Rules -/

section
variable {α β : Type} {w : World} {Q : β → World → Prop} {E : World → Prop}
  {little : Bool} {tag field i j n m : Nat} {b : Bytes}

theorem look_then {g : World → α} {f : α → Handler β} (h : Ensures (f (g w)) w Q E) :
    Ensures (look g >>= f) w Q E :=
  Ensures.bind (Ensures.look h)

theorem order_then {f : Bool → Handler β} (h : Ensures (f w.client.little) w Q E) :
    Ensures (order >>= f) w Q E :=
  look_then h

theorem update_then {g : World → World} {f : Unit → Handler β} (h : Ensures (f ()) (g w) Q E) :
    Ensures (update g >>= f) w Q E :=
  Ensures.bind (Ensures.update h)

theorem change_then {g : Client → Client} {f : Unit → Handler β}
    (h : Ensures (f ()) { w with client := g w.client } Q E) : Ensures (change g >>= f) w Q E :=
  update_then h

theorem ensures_checked {o : Option β} (hsome : ∃ a, o = some a) (h : ∀ a, o = some a → Q a w) :
    Ensures (checked o) w Q E := by
  obtain ⟨a, ha⟩ := hsome
  subst ha
  exact Ensures.pure (h a rfl)

theorem checked_then {o : Option α} {f : α → Handler β} (hsome : ∃ a, o = some a)
    (h : ∀ a, o = some a → Ensures (f a) w Q E) : Ensures (checked o >>= f) w Q E :=
  Ensures.bind (ensures_checked hsome h)

theorem fits_then {f : Nat → Handler β} (hn : n < 2 ^ 64) (h : Ensures (f n) w Q E) :
    Ensures (fits n >>= f) w Q E := by
  unfold fits
  rw [if_pos hn]
  exact Ensures.bind (Ensures.pure h)

theorem minus_then {f : Nat → Handler β} (hle : n ≤ m) (h : Ensures (f (m - n)) w Q E) :
    Ensures (minus m n >>= f) w Q E := by
  unfold minus
  rw [if_pos hle]
  exact Ensures.bind (Ensures.pure h)

theorem divided_then {f : Nat → Handler β} (hpos : n ≠ 0) (h : Ensures (f (m / n)) w Q E) :
    Ensures (divided m n >>= f) w Q E := by
  unfold divided
  rw [if_neg hpos]
  exact Ensures.bind (Ensures.pure h)

theorem padded_then {f : Nat → Handler β} (hn : n < 2 ^ 63)
    (h : Ensures (f ((n + 3) / 4 * 4)) w Q E) : Ensures (padded n >>= f) w Q E := by
  apply Ensures.bind
  apply fits_then (by omega)
  exact Ensures.pure h

theorem u16_then {f : Nat → Handler β} (hi : i + 2 ≤ b.length)
    (h : ∀ n < 2 ^ 16, Ensures (f n) w Q E) : Ensures (u16 little b i >>= f) w Q E := by
  apply Ensures.bind
  apply checked_then ⟨_, range_eq (Nat.le_add_right i 2) hi⟩
  intro bytes hbytes
  exact Ensures.pure (h _ (number_range little hbytes))

theorem u32_then {f : Nat → Handler β} (hi : i + 4 ≤ b.length)
    (h : ∀ n < 2 ^ 32, Ensures (f n) w Q E) : Ensures (u32 little b i >>= f) w Q E := by
  apply Ensures.bind
  apply checked_then ⟨_, range_eq (Nat.le_add_right i 4) hi⟩
  intro bytes hbytes
  exact Ensures.pure (h _ (number_range little hbytes))

theorem set8_then {f : Bytes → Handler β} (hb : Draft little tag field b)
    (hi : 0 < i ∧ i < 4 ∨ 8 ≤ i ∧ i < 32) (h : ∀ c, Draft little tag field c → Ensures (f c) w Q E) :
    Ensures (set8 b i n >>= f) w Q E := by
  apply checked_then (put_within _)
  · intro c hc
    apply h
    apply hb.put hc
    · omega
    · simp
      omega
  · rw [hb.length]
    simp
    omega

theorem set16_then {f : Bytes → Handler β} (hb : Draft little tag field b)
    (hi : 8 ≤ i ∧ i + 2 ≤ 32) (h : ∀ c, Draft little tag field c → Ensures (f c) w Q E) :
    Ensures (set16 little b i n >>= f) w Q E := by
  apply checked_then (put_within (by rw [hb.length, length_number]; exact hi.2))
  intro c hc
  exact h c (hb.put hc (by omega) (Or.inr hi.1))

theorem set32_then {f : Bytes → Handler β} (hb : Draft little tag field b)
    (hi : 8 ≤ i ∧ i + 4 ≤ 32) (h : ∀ c, Draft little tag field c → Ensures (f c) w Q E) :
    Ensures (set32 little b i n >>= f) w Q E := by
  apply checked_then (put_within (by rw [hb.length, length_number]; exact hi.2))
  intro c hc
  exact h c (hb.put hc (by omega) (Or.inr hi.1))

theorem setField_then {f : Bytes → Handler β} (hb : Draft little tag field b)
    (h : ∀ c, Draft little tag n c → Ensures (f c) w Q E) :
    Ensures (set32 little b 4 n >>= f) w Q E := by
  apply checked_then (put_within (by rw [hb.length, length_number]; decide))
  intro c hc
  exact h c (hb.put_field hc)

theorem packet_then {f : Bytes → Handler β} {detail : Nat}
    (h : ∀ b, Draft w.client.little tag 0 b → Ensures (f b) w Q E) :
    Ensures (packet tag detail >>= f) w Q E := by
  apply Ensures.bind
  apply order_then
  apply look_then
  apply checked_then (put_within (by simp))
  intro b hb
  have hdraft : Draft w.client.little tag 0 b := by
    refine ⟨length_put hb, ?_, ?_⟩
    · obtain ⟨-, rfl⟩ := put_some hb
      rfl
    · rw [range_put_other hb (Or.inl (by simp))]
      cases w.client.little <;> rfl
  apply set8_then hdraft (Or.inl (by decide))
  intro b hb
  apply ensures_checked (put_within (by rw [hb.length, length_number]; decide))
  intro c hc
  exact h c (hb.put hc (by decide) (Or.inl (by rw [length_number])))

end

end Porthop.X11.Requests
