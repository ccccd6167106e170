import Porthop.Git.Message
import Porthop.Lib.Base64
import Porthop.Lib.MessagePack

/- Payload values in MessagePack.

   The writer and the reader walk a value in step. A mode says how the string at hand
   travels: as bytes under the two field names that hold base64, and at position 7 of a
   line tuple, else as text. Field names with a number travel as the number, others as
   text, and the reader takes either for a name that has one. Values nest to a depth of
   32 on both sides; the reader's library has a limit of its own, 40, which is out of
   reach below that.

   An object is the list of its members in the order they are written. `Json.Distinct`
   is what the map type of the source guarantees of it. -/
namespace Porthop.Git.Wire
open MessagePack (Token Primitives)

inductive Mode where
  | normal
  | binary
  | lines
  | line
  deriving DecidableEq

namespace Mode

def field (key : String) : Mode :=
  if key = "bytesB64" ∨ key = "contentBytesB64" then binary
  else if key = "lines" then lines
  else normal

def item : Mode → Nat → Mode
  | lines, _ => line
  | line, 7 => binary
  | _, _ => normal

end Mode

def Number.token : Number → Token
  | pos n => .uint n
  | neg n => .sint (Int64.ofInt (-1 - n))
  | float bits _ => .float bits

def keyToken (key : String) : Token :=
  match fieldId key with
  | some id => .uint (UInt64.ofNat id)
  | none => .str key

/-- The depth a value may nest to. -/
def maxDepth : Nat := 32

section
variable (P : Primitives)

mutual
def writeBody (mode : Mode) (depth : Nat) (v : Value) : Option (List UInt8) :=
  if depth > maxDepth then none
  else
    match v with
    | .null => some (P.write .nil)
    | .bool b => some (P.write (.bool b))
    | .num n => some (P.write n.token)
    | .str s =>
      if mode = .binary then
        (Base64.standard.decode s.toList).map fun bs => P.write (.bin bs)
      else some (P.write (.str s))
    | .arr vs => do
      let rows ← writeItems mode depth 0 vs
      some (P.write (.arr (UInt32.ofNat vs.length)) ++ rows)
    | .obj fs => do
      let rows ← writeMembers depth fs
      some (P.write (.map (UInt32.ofNat fs.length)) ++ rows)

def writeItems (mode : Mode) (depth i : Nat) : List Value → Option (List UInt8)
  | [] => some []
  | v :: vs => do
    let a ← writeBody (mode.item i) (depth + 1) v
    let b ← writeItems mode depth (i + 1) vs
    some (a ++ b)

def writeMembers (depth : Nat) : List (String × Value) → Option (List UInt8)
  | [] => some []
  | (key, v) :: fs => do
    let a ← writeBody (Mode.field key) (depth + 1) v
    let b ← writeMembers depth fs
    some (P.write (keyToken key) ++ (a ++ b))
end

/-- The name a key token stands for. -/
def keyName : Token → Option String
  | .uint n => fieldName n.toNat
  | .str s => some s
  | _ => none

def readKey : Parser UInt8 String := do Parser.ofOption (keyName (← P.read))

/-- The members still to come, after those in `rows`. -/
def readMembers (value : String → Parser UInt8 Value) :
    List (String × Value) → Nat → Parser UInt8 (List (String × Value))
  | rows, 0 => pure rows
  | rows, n + 1 => do
    let key ← readKey P
    let v ← value key
    if key ∈ rows.map Prod.fst then Parser.fail
    else readMembers value (rows ++ [(key, v)]) n

def ofSigned (i : Int64) : Number :=
  if h : i.toInt < 0 then
    .neg ⟨(-1 - i.toInt).toNat, by have := i.le_toInt; omega⟩
  else .pos (UInt64.ofNat i.toInt.toNat)

/-- A value at a place from which values nest `room` deep. -/
def readBody : Nat → Mode → Parser UInt8 Value
  | 0, _ => Parser.fail
  | room + 1, mode => do
    match ← P.read with
    | .nil => pure .null
    | .bool b => pure (.bool b)
    | .uint n => pure (.num (.pos n))
    | .sint i => pure (.num (ofSigned i))
    | .float bits => if h : finite bits = true then pure (.num (.float bits h)) else Parser.fail
    | .str s => pure (.str s)
    | .bin bs =>
      if mode = .binary then pure (.str (String.ofList (Base64.standard.encode bs)))
      else Parser.fail
    | .arr n => do
      let vs ← Parser.items (fun i => readBody room (mode.item i)) 0 n.toNat
      pure (.arr vs)
    | .map n => do
      let fs ← readMembers P (fun key => readBody room (Mode.field key)) [] n.toNat
      pure (.obj fs)

def encodeValue (v : Value) : Option (List UInt8) := do
  let bs ← writeBody P .normal 0 v
  if bs.length > maxDiff then none else some bs

def decodeValue (bs : List UInt8) : Option Value :=
  if bs.length > maxDiff then none else (readBody P (maxDepth + 1) .normal).whole bs

end

/-! ## The round trip -/

section
variable {P : Primitives}

theorem reads_token {t : Token} {f : Token → Parser UInt8 Value} {bs : List UInt8} {v : Value}
    (ht : t.Proper) (hf : (f t).Reads bs v) :
    (P.read >>= f).Reads (P.write t ++ bs) v :=
  (P.reads t ht).bind hf

/-- A scalar is its token alone. -/
theorem reads_scalar {t : Token} {f : Token → Parser UInt8 Value} {v : Value} (ht : t.Proper)
    (hf : (f t).Reads [] v) : (P.read >>= f).Reads (P.write t) v :=
  (P.reads t ht).map hf

theorem negative_toInt (n : Fin (2 ^ 63)) : (Int64.ofInt (-1 - n)).toInt = -1 - n := by
  have := n.isLt
  exact Int64.toInt_ofInt_of_le (by omega) (by omega)

theorem number_proper (n : Number) : n.token.Proper := by
  cases n with
  | pos n => trivial
  | neg n =>
    show (Int64.ofInt (-1 - n)).toInt < 0
    rw [negative_toInt]
    omega
  | float bits h => trivial

theorem ofSigned_neg (n : Fin (2 ^ 63)) : ofSigned (Int64.ofInt (-1 - n)) = .neg n := by
  unfold ofSigned
  rw [dif_pos (by rw [negative_toInt]; omega)]
  congr 1
  apply Fin.ext
  show (-1 - (Int64.ofInt (-1 - n)).toInt).toNat = n
  rw [negative_toInt]
  omega

theorem reads_number (room : Nat) (mode : Mode) (n : Number) :
    (readBody P (room + 1) mode).Reads (P.write n.token) (.num n) := by
  refine reads_scalar (number_proper n) ?_
  cases n with
  | pos n => rfl
  | neg n =>
    show some (Json.num (ofSigned (Int64.ofInt (-1 - n))), ([] : List UInt8)) = _
    rw [ofSigned_neg]
  | float bits h =>
    show Parser.Reads (if h : finite bits = true then pure (Json.num (Number.float bits h))
      else Parser.fail) [] _
    rw [dif_pos h]
    rfl

theorem keyToken_proper {key : String} (h : (P.write (keyToken key)).length < 2 ^ 32) :
    (keyToken key).Proper := by
  have hsize := P.size_le (keyToken key)
  cases hid : fieldId key with
  | some id =>
    have hkey : keyToken key = .uint (UInt64.ofNat id) := by simp [keyToken, hid]
    rw [hkey]
    trivial
  | none =>
    have hkey : keyToken key = .str key := by simp [keyToken, hid]
    rw [hkey] at hsize h ⊢
    show key.utf8ByteSize < 2 ^ 32
    have : (Token.str key).size = key.utf8ByteSize + 1 := rfl
    omega

theorem keyName_keyToken (key : String) : keyName (keyToken key) = some key := by
  unfold keyToken
  split
  · next id hid =>
    have hlt := fieldId_lt hid
    show fieldName (UInt64.ofNat id).toNat = some key
    rw [UInt64.toNat_ofNat', Nat.mod_eq_of_lt (by omega)]
    exact fieldName_fieldId hid
  · rfl

theorem reads_key {key : String} (h : (P.write (keyToken key)).length < 2 ^ 32) :
    (readKey P).Reads (P.write (keyToken key)) key := by
  refine (P.reads _ (keyToken_proper h)).map ?_
  rw [keyName_keyToken]
  rfl

theorem write_pos (t : Token) : 1 ≤ (P.write t).length := by
  have := P.size_le t
  cases t <;> simp only [Token.size] at this <;> omega

theorem header_toNat {n : Nat} (h : n < 2 ^ 32) : (UInt32.ofNat n).toNat = n := by
  rw [UInt32.toNat_ofNat']
  exact Nat.mod_eq_of_lt h

theorem writeBody_pos {mode : Mode} {depth : Nat} {v : Value} {bs : List UInt8}
    (h : writeBody P mode depth v = some bs) : 1 ≤ bs.length := by
  rw [writeBody.eq_def] at h
  split at h
  · cases h
  cases v with
  | null => obtain rfl := Option.some.inj h; exact write_pos _
  | bool b => obtain rfl := Option.some.inj h; exact write_pos _
  | num n => obtain rfl := Option.some.inj h; exact write_pos _
  | str s =>
    dsimp only at h
    split at h
    · obtain ⟨bytes, -, rfl⟩ := Option.map_eq_some_iff.mp h
      exact write_pos _
    · obtain rfl := Option.some.inj h; exact write_pos _
  | arr vs =>
    obtain ⟨rows, -, h'⟩ := Option.bind_eq_some_iff.mp h
    obtain rfl := Option.some.inj h'
    have := @write_pos P (.arr (UInt32.ofNat vs.length))
    rw [List.length_append]
    omega
  | obj fs =>
    obtain ⟨rows, -, h'⟩ := Option.bind_eq_some_iff.mp h
    obtain rfl := Option.some.inj h'
    have := @write_pos P (.map (UInt32.ofNat fs.length))
    rw [List.length_append]
    omega

theorem length_writeItems {mode : Mode} {depth i : Nat} {vs : List Value} {bs : List UInt8}
    (h : writeItems P mode depth i vs = some bs) : vs.length ≤ bs.length := by
  induction vs generalizing i bs with
  | nil => exact Nat.zero_le _
  | cons v vs ih =>
    obtain ⟨a, ha, h₁⟩ := Option.bind_eq_some_iff.mp h
    obtain ⟨b, hb, h₂⟩ := Option.bind_eq_some_iff.mp h₁
    obtain rfl := Option.some.inj h₂
    have hv := writeBody_pos ha
    have hvs := ih hb
    rw [List.length_append, List.length_cons]
    omega

theorem length_writeMembers {depth : Nat} {fs : List (String × Value)} {bs : List UInt8}
    (h : writeMembers P depth fs = some bs) : fs.length ≤ bs.length := by
  induction fs generalizing bs with
  | nil => exact Nat.zero_le _
  | cons f fs ih =>
    obtain ⟨a, ha, h₁⟩ := Option.bind_eq_some_iff.mp h
    obtain ⟨b, hb, h₂⟩ := Option.bind_eq_some_iff.mp h₁
    obtain rfl := Option.some.inj h₂
    have hkey := @write_pos P (keyToken f.1)
    have hfs := ih hb
    simp only [List.length_append, List.length_cons]
    omega

mutual
/-- **What is written is read.** -/
theorem reads_body : ∀ (v : Value) {mode : Mode} {room depth : Nat} {bs : List UInt8},
    writeBody P mode depth v = some bs → v.Distinct → bs.length < 2 ^ 32 →
    room + depth = maxDepth + 1 → (readBody P room mode).Reads bs v
  | v, mode, 0, depth, bs, h, _, _, hroom => by
    rw [writeBody.eq_def, if_pos (by omega)] at h
    cases h
  | .null, mode, room + 1, depth, bs, h, _, _, hroom => by
    rw [writeBody, if_neg (by omega)] at h
    obtain rfl := Option.some.inj h
    exact reads_scalar trivial rfl
  | .bool b, mode, room + 1, depth, bs, h, _, _, hroom => by
    rw [writeBody, if_neg (by omega)] at h
    obtain rfl := Option.some.inj h
    exact reads_scalar trivial rfl
  | .num n, mode, room + 1, depth, bs, h, _, _, hroom => by
    rw [writeBody, if_neg (by omega)] at h
    obtain rfl := Option.some.inj h
    exact reads_number room mode n
  | .str s, mode, room + 1, depth, bs, h, _, hlen, hroom => by
    rw [writeBody, if_neg (by omega)] at h
    split at h
    · next hmode =>
      obtain ⟨bytes, hbytes, rfl⟩ := Option.map_eq_some_iff.mp h
      have hsize := P.size_le (.bin bytes)
      have hproper : bytes.length < 2 ^ 32 := by
        have : (Token.bin bytes).size = bytes.length + 1 := rfl
        omega
      refine reads_scalar hproper ?_
      show Parser.Reads (if mode = .binary then _ else _) [] _
      rw [if_pos hmode, Base64.Engine.encode_decode hbytes, String.ofList_toList]
      rfl
    · obtain rfl := Option.some.inj h
      have hsize := P.size_le (.str s)
      have hproper : s.utf8ByteSize < 2 ^ 32 := by
        have : (Token.str s).size = s.utf8ByteSize + 1 := rfl
        omega
      exact reads_scalar hproper rfl
  | .arr vs, mode, room + 1, depth, bs, h, hd, hlen, hroom => by
    rw [writeBody, if_neg (by omega)] at h
    obtain ⟨rows, hrows, h'⟩ := Option.bind_eq_some_iff.mp h
    obtain rfl := Option.some.inj h'
    rw [List.length_append] at hlen
    have hcount := length_writeItems hrows
    refine reads_token trivial ?_
    show Parser.Reads (do
      let vs ← Parser.items (fun i => readBody P room (mode.item i)) 0 (UInt32.ofNat vs.length).toNat
      pure (Json.arr vs)) rows _
    rw [header_toNat (by omega)]
    exact (reads_items vs hrows hd (by omega) (by omega)).map rfl
  | .obj fs, mode, room + 1, depth, bs, h, hd, hlen, hroom => by
    rw [writeBody, if_neg (by omega)] at h
    obtain ⟨rows, hrows, h'⟩ := Option.bind_eq_some_iff.mp h
    obtain rfl := Option.some.inj h'
    rw [List.length_append] at hlen
    have hcount := length_writeMembers hrows
    refine reads_token trivial ?_
    show Parser.Reads (do
      let fs ← readMembers P (fun key => readBody P room (Mode.field key)) []
        (UInt32.ofNat fs.length).toNat
      pure (Json.obj fs)) rows _
    rw [header_toNat (by omega)]
    exact (reads_members fs [] hrows hd.1 hd.2 (by omega) (by omega)).map rfl

theorem reads_items : ∀ (vs : List Value) {mode : Mode} {room depth i : Nat} {bs : List UInt8},
    writeItems P mode depth i vs = some bs → Json.DistinctAll vs → bs.length < 2 ^ 32 →
    room + (depth + 1) = maxDepth + 1 →
    (Parser.items (fun i => readBody P room (mode.item i)) i vs.length).Reads bs vs
  | [], mode, room, depth, i, bs, h, _, _, _ => by
    obtain rfl := Option.some.inj h
    rfl
  | v :: vs, mode, room, depth, i, bs, h, hd, hlen, hroom => by
    obtain ⟨a, ha, h₁⟩ := Option.bind_eq_some_iff.mp h
    obtain ⟨b, hb, h₂⟩ := Option.bind_eq_some_iff.mp h₁
    obtain rfl := Option.some.inj h₂
    rw [List.length_append] at hlen
    have hv := reads_body v ha hd.1 (by omega) hroom
    have hvs := reads_items vs hb hd.2 (by omega) hroom
    exact hv.bind (hvs.map rfl)

theorem reads_members : ∀ (fs rows : List (String × Value)) {room depth : Nat}
    {bs : List UInt8}, writeMembers P depth fs = some bs →
    ((rows ++ fs).map Prod.fst).Nodup → Json.DistinctMembers fs → bs.length < 2 ^ 32 →
    room + (depth + 1) = maxDepth + 1 →
    (readMembers P (fun key => readBody P room (Mode.field key)) rows fs.length).Reads bs
      (rows ++ fs)
  | [], rows, room, depth, bs, h, _, _, _, _ => by
    obtain rfl := Option.some.inj h
    rw [List.append_nil]
    rfl
  | (key, v) :: fs, rows, room, depth, bs, h, hnodup, hd, hlen, hroom => by
    obtain ⟨a, ha, h₁⟩ := Option.bind_eq_some_iff.mp h
    obtain ⟨b, hb, h₂⟩ := Option.bind_eq_some_iff.mp h₁
    obtain rfl := Option.some.inj h₂
    rw [List.length_append, List.length_append] at hlen
    have hkey := @reads_key P key (by omega)
    have hv := reads_body v ha hd.1 (by omega) hroom
    have hrest := reads_members fs (rows ++ [(key, v)]) hb
      (by rwa [List.append_assoc]) hd.2 (by omega) hroom
    have hnew : key ∉ rows.map Prod.fst := by
      rw [List.map_append, List.map_cons] at hnodup
      intro hmem
      exact (List.nodup_append.mp hnodup).2.2 key hmem key (by simp) rfl
    refine hkey.bind (hv.bind ?_)
    rw [if_neg hnew]
    rwa [List.append_assoc] at hrest
end

end

end Porthop.Git.Wire
