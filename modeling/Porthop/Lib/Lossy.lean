import Porthop.Lib.MessagePack

/- Bytes read as UTF-8 whatever they are: a valid text is itself, and in any other each
   longest start of a character that breaks off becomes one replacement character. -/
namespace Porthop.Utf8

def replacement : Char := Char.ofNat 0xfffd

/-- The bytes a character may go on with after its first one: how many, and the bounds of
    the second byte, which exclude overlong forms and surrogates. -/
def continuation (first : UInt8) : Option (Nat × UInt8 × UInt8) :=
  if first < 0x80 then some (0, 0x80, 0xbf)
  else if 0xc2 ≤ first ∧ first ≤ 0xdf then some (1, 0x80, 0xbf)
  else if first = 0xe0 then some (2, 0xa0, 0xbf)
  else if first = 0xed then some (2, 0x80, 0x9f)
  else if 0xe1 ≤ first ∧ first ≤ 0xef then some (2, 0x80, 0xbf)
  else if first = 0xf0 then some (3, 0x90, 0xbf)
  else if 0xf1 ≤ first ∧ first ≤ 0xf3 then some (3, 0x80, 0xbf)
  else if first = 0xf4 then some (3, 0x80, 0x8f)
  else none

/-- How many of the next `n` bytes go on, the first of them within its own bounds. -/
def follows : Nat → UInt8 → UInt8 → List UInt8 → Nat
  | 0, _, _, _ => 0
  | _ + 1, _, _, [] => 0
  | n + 1, low, high, b :: bs =>
    if low ≤ b ∧ b ≤ high then follows n 0x80 0xbf bs + 1 else 0

/-- The first character and the bytes it takes. -/
def next (first : UInt8) (bs : List UInt8) : Char × Nat :=
  match continuation first with
  | none => (replacement, 1)
  | some (n, low, high) =>
    let k := follows n low high bs
    let character := (MessagePack.ofUtf8 (first :: bs.take k)).bind fun s => s.toList.head?
    (if k = n then character.getD replacement else replacement, k + 1)

/-- The fuel is the number of bytes that are left at most. -/
def replaceFrom : Nat → List UInt8 → List Char
  | 0, _ => []
  | _ + 1, [] => []
  | fuel + 1, first :: bs =>
    let (c, n) := next first bs
    c :: replaceFrom fuel ((first :: bs).drop n)

def fromUtf8Lossy (bs : List UInt8) : String :=
  match MessagePack.ofUtf8 bs with
  | some s => s
  | none => String.ofList (replaceFrom bs.length bs)

@[simp] theorem fromUtf8Lossy_utf8 (s : String) : fromUtf8Lossy (MessagePack.utf8 s) = s := by
  rw [fromUtf8Lossy, MessagePack.ofUtf8_utf8]

/-- The bytes of a text of one-byte characters. -/
theorem utf8_ascii {s : String} (h : ∀ c ∈ s.toList, c.utf8Size = 1) :
    MessagePack.utf8 s = s.toList.map fun c => c.val.toUInt8 := by
  have hflat : ∀ cs : List Char, (∀ c ∈ cs, c.utf8Size = 1) →
      cs.flatMap String.utf8EncodeChar = cs.map fun c => c.val.toUInt8 := by
    intro cs hcs
    induction cs with
    | nil => rfl
    | cons c cs ih =>
      rw [List.flatMap_cons, String.utf8EncodeChar_eq_singleton (hcs c List.mem_cons_self),
        ih fun d hd => hcs d (List.mem_cons_of_mem _ hd)]
      rfl
  have hbytes : s.toUTF8 = (s.toList.flatMap String.utf8EncodeChar).toByteArray := by
    rw [String.toUTF8_eq_toByteArray, ← List.utf8Encode, ← String.toByteArray_ofList,
      String.ofList_toList]
  rw [MessagePack.utf8, hbytes, List.toList_data_toByteArray, hflat _ h]

/-- A byte that starts nothing, and a character that breaks off. -/
example : fromUtf8Lossy [0x61, 0xff, 0xe2, 0x82, 0x62] =
    String.ofList ['a', replacement, replacement, 'b'] := by decide +kernel

end Porthop.Utf8
