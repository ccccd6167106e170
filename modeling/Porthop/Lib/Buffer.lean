import Mathlib.Data.List.TakeDrop
import Mathlib.Data.Nat.Digits.Defs
import Porthop.Lib.MessagePack

/- Buffers with fields at fixed places.

   An access is within the buffer or there is none, so a program that goes on after one has
   stayed inside. A number of a few bytes is laid out in one of two byte orders, and a field
   is what it was as long as only other places are written. -/
namespace Porthop.Buffer

variable {α : Type} {b c items : List α} {i j n : Nat}

/-- The items from one place up to another. -/
def range (b : List α) (i j : Nat) : Option (List α) :=
  if i ≤ j ∧ j ≤ b.length then some ((b.drop i).take (j - i)) else none

/-- The buffer with other items from a place on. -/
def put (b : List α) (i : Nat) (items : List α) : Option (List α) :=
  if i + items.length ≤ b.length then some (b.take i ++ items ++ b.drop (i + items.length))
  else none

theorem range_eq (hij : i ≤ j) (hj : j ≤ b.length) :
    range b i j = some ((b.drop i).take (j - i)) := if_pos ⟨hij, hj⟩

theorem put_within (h : i + items.length ≤ b.length) :
    ∃ c, put b i items = some c := ⟨_, if_pos h⟩

theorem put_some (h : put b i items = some c) :
    i + items.length ≤ b.length ∧ c = b.take i ++ items ++ b.drop (i + items.length) := by
  unfold put at h
  split at h
  case isTrue hi => exact ⟨hi, (Option.some.inj h).symm⟩
  case isFalse => simp at h

theorem length_put (h : put b i items = some c) : c.length = b.length := by
  obtain ⟨hi, rfl⟩ := put_some h
  simp only [List.length_append, List.length_take, List.length_drop]
  omega

theorem head_put (h : put b i items = some c) (hi : 0 < i) : c.head? = b.head? := by
  obtain ⟨hb, rfl⟩ := put_some h
  cases b with
  | nil => simp at hb; omega
  | cons a b =>
    obtain ⟨i, rfl⟩ := Nat.exists_eq_succ_of_ne_zero (Nat.ne_of_gt hi)
    simp

theorem range_put_self (h : put b i items = some c) :
    range c i (i + items.length) = some items := by
  have hlength := length_put h
  obtain ⟨hi, rfl⟩ := put_some h
  rw [range_eq (Nat.le_add_right _ _) (hlength ▸ hi), List.append_assoc,
    List.drop_append_of_le_length (by simp; omega)]
  simp

/-- A range is the same after a write that ends before it or begins behind it. -/
theorem range_put_other (h : put b i items = some c) {j k : Nat}
    (hdisjoint : i + items.length ≤ j ∨ k ≤ i) : range c j k = range b j k := by
  have hlength := length_put h
  obtain ⟨hi, rfl⟩ := put_some h
  unfold range
  rw [hlength]
  split
  case isFalse => rfl
  case isTrue hjk =>
    congr 1
    apply List.ext_getElem?
    intro m
    simp only [List.getElem?_take, List.getElem?_drop]
    split
    case isFalse => rfl
    case isTrue hm =>
      rcases hdisjoint with hbefore | hbehind
      · rw [List.getElem?_append_right (by simp; omega), List.getElem?_drop]
        congr 1
        simp
        omega
      · rw [List.append_assoc, List.getElem?_append_left (by simp; omega), List.getElem?_take]
        simp
        omega

theorem range_append (h : j ≤ b.length) : range (b ++ c) i j = range b i j := by
  unfold range
  by_cases hi : i ≤ j
  · rw [if_pos ⟨hi, by simp; omega⟩, if_pos ⟨hi, h⟩]
    congr 1
    apply List.ext_getElem?
    intro m
    simp only [List.getElem?_take, List.getElem?_drop]
    split
    case isFalse => rfl
    case isTrue hm => exact List.getElem?_append_left (by omega)
  · rw [if_neg (fun h => hi h.1), if_neg (fun h => hi h.1)]

/-- A buffer is filled to a length behind what it has. -/
theorem takeD_append (b c : List α) (n : Nat) (a : α) :
    (b ++ c).takeD (b.length + n) a = b ++ c.takeD n a := by
  induction b with
  | nil => rw [List.length_nil, Nat.zero_add, List.nil_append, List.nil_append]
  | cons x b ih =>
    rw [List.length_cons, Nat.succ_add, List.takeD_succ]
    exact congrArg (x :: ·) ih

/-! ## Numbers -/

/-- The bytes of a number in the byte order, from or to the most significant first. -/
def ordered (little : Bool) (bytes : List UInt8) : List UInt8 :=
  if little then bytes.reverse else bytes

def number (little : Bool) (bytes : List UInt8) : Nat :=
  Nat.ofDigits 256 ((ordered (!little) bytes).map UInt8.toNat)

theorem number_lt (little : Bool) (bytes : List UInt8) :
    number little bytes < 256 ^ bytes.length := by
  have hlength : bytes.length = ((ordered (!little) bytes).map UInt8.toNat).length := by
    cases little <;> simp [ordered]
  rw [hlength]
  apply Nat.ofDigits_lt_base_pow_length (by decide)
  intro digit hdigit
  obtain ⟨byte, -, rfl⟩ := List.mem_map.mp hdigit
  exact byte.toNat_lt

theorem number_range {bytes c : List UInt8} (little : Bool) (h : range c i (i + n) = some bytes) :
    number little bytes < 256 ^ n := by
  have hlength : bytes.length = n := by
    unfold range at h
    split at h
    case isTrue hi =>
      rw [← Option.some.inj h]
      simp
      omega
    case isFalse => simp at h
  have hlt := number_lt little bytes
  rw [hlength] at hlt
  exact hlt

theorem length_ordered (little : Bool) (bytes : List UInt8) :
    (ordered little bytes).length = bytes.length := by
  cases little with
  | true => exact List.length_reverse
  | false => rfl

theorem ofDigits_be (k n : Nat) :
    Nat.ofDigits 256 ((MessagePack.be k n).reverse.map UInt8.toNat) = n % 256 ^ k := by
  induction k generalizing n with
  | zero => simp [MessagePack.be, Nat.mod_one]
  | succ k ih =>
    have hbyte : (UInt8.ofNat (n / 256 ^ k)).toNat = n / 256 ^ k % 256 := UInt8.toNat_ofNat'
    rw [MessagePack.be, List.reverse_cons, List.map_append, Nat.ofDigits_append, ih,
      List.length_map, List.length_reverse, MessagePack.length_be, List.map_singleton,
      Nat.ofDigits_singleton, hbyte, Nat.mod_mod, Nat.pow_succ, Nat.mod_mul]

/-- What is read where a number was written. -/
theorem number_ordered (little : Bool) (k n : Nat) :
    number little (ordered little (MessagePack.be k n)) = n % 256 ^ k := by
  have hbytes : ordered (!little) (ordered little (MessagePack.be k n)) =
      (MessagePack.be k n).reverse := by
    cases little <;> rfl
  rw [number, hbytes, ofDigits_be]

end Porthop.Buffer
