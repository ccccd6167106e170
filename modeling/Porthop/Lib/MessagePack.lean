import Mathlib.Tactic.Positivity
import Mathlib.Tactic.Ring
import Mathlib.Tactic.Zify
import Porthop.Lib.Parser

/- MessagePack, one token at a time.

   A document is a sequence of tokens: scalars, strings, byte strings, and the headers of
   arrays and maps, which say how many items follow. `Primitives` is what a codec built on
   the format asks of the layer below it, a writer and a reader of tokens that agree.
   `compact` is one: it writes each token in its shortest form and reads every form of the
   format but the extension types. -/
namespace Porthop.MessagePack

/-- A floating-point token is its 64 bits. An integer is signed or not by how it is
    written, which its value does not tell. -/
inductive Token where
  | nil
  | bool (b : Bool)
  | uint (n : UInt64)
  | sint (i : Int64)
  | float (bits : UInt64)
  | str (s : String)
  | bin (bs : List UInt8)
  | arr (n : UInt32)
  | map (n : UInt32)

namespace Token

/-- The tokens a writer is asked for: a signed integer is negative, and a length fits its
    header. -/
def Proper : Token → Prop
  | sint i => i.toInt < 0
  | str s => s.utf8ByteSize < 2 ^ 32
  | bin bs => bs.length < 2 ^ 32
  | _ => True

/-- The least a token can take. -/
def size : Token → Nat
  | str s => s.utf8ByteSize + 1
  | bin bs => bs.length + 1
  | _ => 1

end Token

structure Primitives where
  write : Token → List UInt8
  read : Parser UInt8 Token
  reads : ∀ t : Token, t.Proper → read.Reads (write t) t
  size_le : ∀ t : Token, t.size ≤ (write t).length

/-! ## Numbers and texts -/

/-- `k` bytes, the most significant first. -/
def be : Nat → Nat → List UInt8
  | 0, _ => []
  | k + 1, n => UInt8.ofNat (n / 256 ^ k) :: be k (n % 256 ^ k)

def readBe : Nat → Parser UInt8 Nat
  | 0 => pure 0
  | k + 1 => do
    let b ← Parser.item
    let n ← readBe k
    pure (b.toNat * 256 ^ k + n)

def readBytes (n : Nat) : Parser UInt8 (List UInt8) := Parser.items (fun _ => Parser.item) 0 n

def utf8 (s : String) : List UInt8 := s.toUTF8.data.toList

def ofUtf8 (bs : List UInt8) : Option String :=
  (ByteArray.mk bs.toArray).utf8Decode?.map fun cs => String.ofList cs.toList

theorem reads_item (b : UInt8) : Parser.Reads Parser.item [b] b := rfl

theorem length_be (k n : Nat) : (be k n).length = k := by
  induction k generalizing n with
  | zero => rfl
  | succ k ih => rw [be, List.length_cons, ih]

theorem reads_be {k n : Nat} (h : n < 256 ^ k) : (readBe k).Reads (be k n) n := by
  induction k generalizing n with
  | zero =>
    obtain rfl : n = 0 := by simpa using h
    rfl
  | succ k ih =>
    have hpos : 0 < 256 ^ k := Nat.pow_pos (by decide)
    have hhead : n / 256 ^ k < 256 := by
      rw [Nat.div_lt_iff_lt_mul hpos]
      calc n < 256 ^ (k + 1) := h
        _ = 256 * 256 ^ k := by ring
    have hbyte : (UInt8.ofNat (n / 256 ^ k)).toNat = n / 256 ^ k := by
      rw [UInt8.toNat_ofNat']
      exact Nat.mod_eq_of_lt hhead
    refine (reads_item _).bind ((ih (Nat.mod_lt n hpos)).map ?_)
    show some (_, ([] : List UInt8)) = some (n, [])
    rw [hbyte, Nat.div_add_mod']

theorem reads_bytes (bs : List UInt8) : (readBytes bs.length).Reads bs bs := by
  have hitems : ∀ i, (Parser.items (fun _ => Parser.item) i bs.length).Reads bs bs := by
    induction bs with
    | nil => intro i; rfl
    | cons b bs ih =>
      intro i
      exact (reads_item b).bind ((ih (i + 1)).map rfl)
  exact hitems 0

theorem length_utf8 (s : String) : (utf8 s).length = s.utf8ByteSize := by
  rw [utf8, String.toUTF8_eq_toByteArray, ← String.size_toByteArray]
  rfl

theorem ofUtf8_utf8 (s : String) : ofUtf8 (utf8 s) = some s := by
  have hbytes : ByteArray.mk (utf8 s).toArray = s.toList.utf8Encode := by
    rw [utf8, Array.toArray_toList, String.toUTF8_eq_toByteArray, ← String.toByteArray_ofList,
      String.ofList_toList]
  rw [ofUtf8, hbytes, List.utf8Decode?_utf8Encode]
  simp

theorem utf8_of_ofUtf8 {bs : List UInt8} {s : String} (h : ofUtf8 bs = some s) :
    utf8 s = bs := by
  obtain ⟨cs, hcs, rfl⟩ := Option.map_eq_some_iff.mp h
  have hencode : cs.toList.utf8Encode = ByteArray.mk bs.toArray := by
    have hget := ByteArray.utf8Encode_get_utf8Decode? (b := ByteArray.mk bs.toArray)
      (h := by rw [hcs]; rfl)
    simpa only [hcs, Option.get_some] using hget
  rw [utf8, String.toUTF8_eq_toByteArray, String.toByteArray_ofList, hencode]

/-! ## The shortest forms -/

/-- The width and marker of a length, where it does not fit the short form. -/
def writeLen (m₁ m₂ m₄ : UInt8) (n : Nat) : List UInt8 :=
  if n < 256 then m₁ :: be 1 n else if n < 65536 then m₂ :: be 2 n else m₄ :: be 4 n

def writeUInt (n : Nat) : List UInt8 :=
  if n < 128 then [UInt8.ofNat n]
  else if n < 256 then 0xcc :: be 1 n
  else if n < 65536 then 0xcd :: be 2 n
  else if n < 2 ^ 32 then 0xce :: be 4 n
  else 0xcf :: be 8 n

/-- The two's complement of a negative number, in `k` bytes. -/
def complement (k : Nat) (i : Int) : Nat := (i + 256 ^ k).toNat

def writeSInt (i : Int) : List UInt8 :=
  if 0 ≤ i then writeUInt i.toNat
  else if -32 ≤ i then be 1 (complement 1 i)
  else if -128 ≤ i then 0xd0 :: be 1 (complement 1 i)
  else if -32768 ≤ i then 0xd1 :: be 2 (complement 2 i)
  else if -2 ^ 31 ≤ i then 0xd2 :: be 4 (complement 4 i)
  else 0xd3 :: be 8 (complement 8 i)

def write : Token → List UInt8
  | .nil => [0xc0]
  | .bool false => [0xc2]
  | .bool true => [0xc3]
  | .uint n => writeUInt n.toNat
  | .sint i => writeSInt i.toInt
  | .float bits => 0xcb :: be 8 bits.toNat
  | .str s =>
    let bs := utf8 s
    (if bs.length < 32 then [UInt8.ofNat (0xa0 + bs.length)]
      else writeLen 0xd9 0xda 0xdb bs.length) ++ bs
  | .bin bs => writeLen 0xc4 0xc5 0xc6 bs.length ++ bs
  | .arr n =>
    if n.toNat < 16 then [UInt8.ofNat (0x90 + n.toNat)]
    else if n.toNat < 65536 then 0xdc :: be 2 n.toNat else 0xdd :: be 4 n.toNat
  | .map n =>
    if n.toNat < 16 then [UInt8.ofNat (0x80 + n.toNat)]
    else if n.toNat < 65536 then 0xde :: be 2 n.toNat else 0xdf :: be 4 n.toNat

/-! ## The reader -/

/-- A 32-bit float's value, as the bits of a 64-bit one. -/
def widen (b : Nat) : Nat :=
  let sign := b / 2 ^ 31
  let exp := b / 2 ^ 23 % 256
  let man := b % 2 ^ 23
  let (exp', man') :=
    if exp = 255 then (2047, man * 2 ^ 29)
    else if exp = 0 then
      if man = 0 then (0, 0)
      -- a number too small for a leading one has one here
      else (man.log2 + 874, (man - 2 ^ man.log2) * 2 ^ (52 - man.log2))
    else (exp + 896, man * 2 ^ 29)
  sign * 2 ^ 63 + exp' * 2 ^ 52 + man'

def readUInt (k : Nat) : Parser UInt8 Token := do
  let n ← readBe k
  pure (.uint (UInt64.ofNat n))

def readSInt (k : Nat) : Parser UInt8 Token := do
  let n ← readBe k
  pure (.sint (Int64.ofInt (if 2 * n < 256 ^ k then n else n - 256 ^ k)))

/-- A text that is not UTF-8 is handed on as bytes. -/
def readStr (n : Nat) : Parser UInt8 Token := do
  let bs ← readBytes n
  pure (match ofUtf8 bs with
    | some s => .str s
    | none => .bin bs)

def readBin (n : Nat) : Parser UInt8 Token := do
  let bs ← readBytes n
  pure (.bin bs)

/-- What follows a marker. -/
def readTail (m : Nat) : Parser UInt8 Token :=
  if m < 0x80 then pure (.uint (UInt64.ofNat m))
  else if m < 0x90 then pure (.map (UInt32.ofNat (m - 0x80)))
  else if m < 0xa0 then pure (.arr (UInt32.ofNat (m - 0x90)))
  else if m < 0xc0 then readStr (m - 0xa0)
  else if 0xe0 ≤ m then pure (.sint (Int64.ofInt (m - 256)))
  else match m with
    | 0xc0 => pure .nil
    | 0xc2 => pure (.bool false)
    | 0xc3 => pure (.bool true)
    | 0xc4 => do readBin (← readBe 1)
    | 0xc5 => do readBin (← readBe 2)
    | 0xc6 => do readBin (← readBe 4)
    | 0xca => do pure (.float (UInt64.ofNat (widen (← readBe 4))))
    | 0xcb => do pure (.float (UInt64.ofNat (← readBe 8)))
    | 0xcc => readUInt 1
    | 0xcd => readUInt 2
    | 0xce => readUInt 4
    | 0xcf => readUInt 8
    | 0xd0 => readSInt 1
    | 0xd1 => readSInt 2
    | 0xd2 => readSInt 4
    | 0xd3 => readSInt 8
    | 0xd9 => do readStr (← readBe 1)
    | 0xda => do readStr (← readBe 2)
    | 0xdb => do readStr (← readBe 4)
    | 0xdc => do pure (.arr (UInt32.ofNat (← readBe 2)))
    | 0xdd => do pure (.arr (UInt32.ofNat (← readBe 4)))
    | 0xde => do pure (.map (UInt32.ofNat (← readBe 2)))
    | 0xdf => do pure (.map (UInt32.ofNat (← readBe 4)))
    | _ => Parser.fail

def read : Parser UInt8 Token := do
  let m ← Parser.item
  readTail m.toNat

/-! ## The round trip -/

theorem reads_marker {m : UInt8} {bs : List UInt8} {t : Token}
    (h : (readTail m.toNat).Reads bs t) : read.Reads (m :: bs) t :=
  (reads_item m).bind h

theorem reads_short {n : Nat} {bs : List UInt8} {t : Token} (hn : n < 256)
    (h : (readTail n).Reads bs t) : read.Reads (UInt8.ofNat n :: bs) t := by
  refine reads_marker ?_
  rw [UInt8.toNat_ofNat', Nat.mod_eq_of_lt hn]
  exact h

theorem reads_uint {k : Nat} {n : UInt64} (h : n.toNat < 256 ^ k) :
    (readUInt k).Reads (be k n.toNat) (.uint n) := by
  refine (reads_be h).map ?_
  show some (_, ([] : List UInt8)) = _
  rw [UInt64.ofNat_toNat]

theorem writeUInt_reads (n : UInt64) : read.Reads (writeUInt n.toNat) (.uint n) := by
  unfold writeUInt
  split
  · next h =>
    refine reads_short (by omega) ?_
    unfold readTail
    rw [if_pos h, UInt64.ofNat_toNat]
    rfl
  split
  · exact reads_marker (reads_uint (by simpa))
  split
  · exact reads_marker (reads_uint (by simpa))
  split
  · exact reads_marker (reads_uint (by simpa))
  · exact reads_marker (reads_uint n.toNat_lt)

theorem reads_sint {k : Nat} {i : Int64} (h : -(256 ^ k : Int) ≤ 2 * i.toInt)
    (hneg : i.toInt < 0) :
    (readSInt k).Reads (be k (complement k i.toInt)) (.sint i) := by
  have hpow : (0 : Int) < 256 ^ k := by positivity
  have hlt : complement k i.toInt < 256 ^ k := by
    unfold complement
    zify
    omega
  refine (reads_be hlt).map ?_
  show some (_, ([] : List UInt8)) = _
  have hback : (if 2 * complement k i.toInt < 256 ^ k then (complement k i.toInt : Int)
      else complement k i.toInt - 256 ^ k) = i.toInt := by
    have hcast : (complement k i.toInt : Int) = i.toInt + 256 ^ k := by
      unfold complement
      omega
    rw [if_neg, hcast]
    · omega
    · zify
      rw [hcast]
      omega
  rw [hback, Int64.ofInt_toInt]

theorem writeSInt_reads {i : Int64} (hneg : i.toInt < 0) :
    read.Reads (writeSInt i.toInt) (.sint i) := by
  have hlow := i.le_toInt
  unfold writeSInt
  rw [if_neg (by omega)]
  split
  · next h =>
    have hc : complement 1 i.toInt = (i.toInt + 256).toNat := rfl
    have hone : be 1 (complement 1 i.toInt) = [UInt8.ofNat (complement 1 i.toInt)] := by
      rw [be, Nat.pow_zero, Nat.div_one]
      rfl
    rw [hone]
    refine reads_short (by omega) ?_
    unfold readTail
    rw [if_neg (by omega), if_neg (by omega), if_neg (by omega), if_neg (by omega),
      if_pos (by omega)]
    show some (_, ([] : List UInt8)) = _
    have hback : ((complement 1 i.toInt : Nat) : Int) - 256 = i.toInt := by omega
    rw [hback, Int64.ofInt_toInt]
  split
  · exact reads_marker (reads_sint (by norm_num; omega) hneg)
  split
  · exact reads_marker (reads_sint (by norm_num; omega) hneg)
  split
  · exact reads_marker (reads_sint (by norm_num; omega) hneg)
  · exact reads_marker (reads_sint (by norm_num; omega) hneg)

theorem reads_str (s : String) : (readStr (utf8 s).length).Reads (utf8 s) (.str s) := by
  refine (reads_bytes (utf8 s)).map ?_
  show some (_, ([] : List UInt8)) = _
  rw [ofUtf8_utf8]

theorem reads_bin (bs : List UInt8) : (readBin bs.length).Reads bs (.bin bs) :=
  (reads_bytes bs).map rfl

/-- A length in its own bytes and what it counts. -/
theorem writeLen_reads {m₁ m₂ m₄ : UInt8} {f : Nat → Parser UInt8 Token} {bs : List UInt8}
    {t : Token} {n : Nat} (hn : n < 2 ^ 32) (hf : (f n).Reads bs t)
    (h₁ : readTail m₁.toNat = (do f (← readBe 1)))
    (h₂ : readTail m₂.toNat = (do f (← readBe 2)))
    (h₄ : readTail m₄.toNat = (do f (← readBe 4))) :
    read.Reads (writeLen m₁ m₂ m₄ n ++ bs) t := by
  unfold writeLen
  split
  · refine reads_marker ?_
    rw [h₁]
    exact (reads_be (by simpa)).bind hf
  split
  · refine reads_marker ?_
    rw [h₂]
    exact (reads_be (by simpa)).bind hf
  · refine reads_marker ?_
    rw [h₄]
    exact (reads_be hn).bind hf

/-- The header of an array or a map. -/
theorem header_reads {m₂ m₄ : UInt8} {base : Nat} {f : UInt32 → Token} {n : UInt32}
    (hbase : base + 16 ≤ 256)
    (h₀ : ∀ k, k < 16 → readTail (base + k) = pure (f (UInt32.ofNat k)))
    (h₂ : readTail m₂.toNat = (do pure (f (UInt32.ofNat (← readBe 2)))))
    (h₄ : readTail m₄.toNat = (do pure (f (UInt32.ofNat (← readBe 4))))) :
    read.Reads (if n.toNat < 16 then [UInt8.ofNat (base + n.toNat)]
      else if n.toNat < 65536 then m₂ :: be 2 n.toNat else m₄ :: be 4 n.toNat) (f n) := by
  split
  · next h =>
    refine reads_short (by omega) ?_
    rw [h₀ _ h, UInt32.ofNat_toNat]
    rfl
  split
  · refine reads_marker ?_
    rw [h₂]
    refine (reads_be (by simpa)).map ?_
    rw [UInt32.ofNat_toNat]
    rfl
  · refine reads_marker ?_
    rw [h₄]
    refine (reads_be n.toNat_lt).map ?_
    rw [UInt32.ofNat_toNat]
    rfl

theorem write_reads (t : Token) (h : t.Proper) : read.Reads (write t) t := by
  cases t with
  | nil => rfl
  | bool b => cases b <;> rfl
  | uint n => exact writeUInt_reads n
  | sint i => exact writeSInt_reads h
  | float bits =>
    refine reads_marker ((reads_be bits.toNat_lt).map ?_)
    rw [UInt64.ofNat_toNat]
    rfl
  | str s =>
    have hlen : (utf8 s).length < 2 ^ 32 := by rw [length_utf8]; exact h
    simp only [write]
    split
    · next hs =>
      refine reads_short (by omega) ?_
      unfold readTail
      rw [if_neg (by omega), if_neg (by omega), if_neg (by omega), if_pos (by omega),
        Nat.add_sub_cancel_left]
      exact reads_str s
    · exact writeLen_reads hlen (reads_str s) rfl rfl rfl
  | bin bs => exact writeLen_reads h (reads_bin bs) rfl rfl rfl
  | arr n =>
    refine header_reads (by decide) (fun k hk => ?_) rfl rfl
    unfold readTail
    rw [if_neg (by omega), if_neg (by omega), if_pos (by omega), Nat.add_sub_cancel_left]
  | map n =>
    refine header_reads (by decide) (fun k hk => ?_) rfl rfl
    unfold readTail
    rw [if_neg (by omega), if_pos (by omega), Nat.add_sub_cancel_left]

theorem write_size (t : Token) : t.size ≤ (write t).length := by
  have hlen : ∀ m₁ m₂ m₄ n, 1 ≤ (writeLen m₁ m₂ m₄ n).length := by
    intro m₁ m₂ m₄ n
    unfold writeLen
    split
    · simp
    split <;> simp
  have huint : ∀ n, 1 ≤ (writeUInt n).length := by
    intro n
    unfold writeUInt
    repeat' split
    all_goals simp
  cases t with
  | nil => simp [write, Token.size]
  | bool b => cases b <;> simp [write, Token.size]
  | uint n => exact huint n.toNat
  | sint i =>
    show 1 ≤ (writeSInt i.toInt).length
    unfold writeSInt
    split
    · exact huint _
    repeat' split
    all_goals simp [be]
  | float bits => simp [write, Token.size]
  | str s =>
    simp only [write, Token.size, List.length_append, length_utf8]
    split
    · simp [Nat.add_comm]
    · have := hlen 0xd9 0xda 0xdb s.utf8ByteSize
      omega
  | bin bs =>
    simp only [write, Token.size, List.length_append]
    have := hlen 0xc4 0xc5 0xc6 bs.length
    omega
  | arr n =>
    show 1 ≤ (write (.arr n)).length
    simp only [write]
    repeat' split
    all_goals simp
  | map n =>
    show 1 ≤ (write (.map n)).length
    simp only [write]
    repeat' split
    all_goals simp

/-! ## The most a form takes -/

theorem length_writeUInt_le (n : Nat) : (writeUInt n).length ≤ 9 := by
  unfold writeUInt
  repeat' split
  all_goals simp [length_be]

theorem length_writeUInt_byte {n : Nat} (h : n < 256) : (writeUInt n).length ≤ 2 := by
  unfold writeUInt
  rw [if_pos h]
  split
  all_goals simp [length_be]

theorem length_writeSInt_le (i : Int) : (writeSInt i).length ≤ 9 := by
  unfold writeSInt
  split
  · exact length_writeUInt_le _
  repeat' split
  all_goals simp [length_be]

theorem length_writeLen_le (m₁ m₂ m₄ : UInt8) (n : Nat) : (writeLen m₁ m₂ m₄ n).length ≤ 5 := by
  unfold writeLen
  repeat' split
  all_goals simp [length_be]

theorem length_writeLen_short (m₁ m₂ m₄ : UInt8) {n : Nat} (h : n < 65536) :
    (writeLen m₁ m₂ m₄ n).length ≤ 3 := by
  unfold writeLen
  rw [if_pos h]
  split
  all_goals simp [length_be]

theorem length_write_str {s : String} (h : s.utf8ByteSize < 65536) :
    (write (.str s)).length ≤ s.utf8ByteSize + 3 := by
  have hlen := @length_writeLen_short 0xd9 0xda 0xdb _ h
  simp only [write, List.length_append, length_utf8]
  split
  · rw [List.length_singleton]
    omega
  · omega

theorem length_write_bin (bs : List UInt8) : (write (.bin bs)).length ≤ bs.length + 5 := by
  have hlen := length_writeLen_le 0xc4 0xc5 0xc6 bs.length
  simp only [write, List.length_append]
  omega

theorem length_write_bin_short {bs : List UInt8} (h : bs.length < 65536) :
    (write (.bin bs)).length ≤ bs.length + 3 := by
  have hlen := @length_writeLen_short 0xc4 0xc5 0xc6 _ h
  simp only [write, List.length_append]
  omega

theorem length_write_bool (b : Bool) : (write (.bool b)).length = 1 := by
  cases b <;> rfl

theorem length_write_arr {n : UInt32} (h : n.toNat < 65536) : (write (.arr n)).length ≤ 3 := by
  simp only [write, if_pos h]
  split
  all_goals simp [length_be]

/-- Every token in its shortest form. -/
def compact : Primitives := ⟨write, read, write_reads, write_size⟩

end Porthop.MessagePack
