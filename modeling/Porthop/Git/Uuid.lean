import Porthop.Lib.Json

/- UUIDs and their texts: the hyphenated text a UUID is written as, and the texts it is
   read from (`Uuid::parse_str`): 32 hexadecimal digits, the hyphenated text, or that
   text in braces or after `urn:uuid:`. -/
namespace Porthop.Git

abbrev Uuid := BitVec 128

namespace Uuid

/-- So many hexadecimal digits of a number, the highest first. -/
def hexDigits : Nat → Nat → List Char
  | 0, _ => []
  | k + 1, n => hexDigits k (n / 16) ++ [Nat.digitChar (n % 16)]

/-- The hyphenated text of a UUID. -/
def text (u : Uuid) : List Char :=
  hexDigits 8 (u.toNat / 16 ^ 24) ++ '-' :: hexDigits 4 (u.toNat / 16 ^ 20) ++
    '-' :: hexDigits 4 (u.toNat / 16 ^ 16) ++ '-' :: hexDigits 4 (u.toNat / 16 ^ 12) ++
    '-' :: hexDigits 12 u.toNat

/-- Read hexadecimal digits on top of a number already read. -/
def readHex : List Char → Nat → Option Nat
  | [], n => some n
  | c :: cs, n => (Json.hexVal c).bind fun d => readHex cs (n * 16 + d)

def parseSimple (cs : List Char) : Option Uuid :=
  if cs.length = 32 then (readHex cs 0).map (BitVec.ofNat 128) else none

def parseHyphenated (cs : List Char) : Option Uuid :=
  if cs.length = 36 ∧ cs[8]? = some '-' ∧ cs[13]? = some '-' ∧ cs[18]? = some '-' ∧
      cs[23]? = some '-' then
    parseSimple (cs.take 8 ++ (cs.drop 9).take 4 ++ (cs.drop 14).take 4 ++
      (cs.drop 19).take 4 ++ cs.drop 24)
  else none

def urn : List Char := "urn:uuid:".toList

def parse (s : String) : Option Uuid :=
  let cs := s.toList
  if cs.length = 32 then parseSimple cs
  else if cs.length = 38 ∧ cs.head? = some (Char.ofNat 0x7b) ∧
      cs.getLast? = some (Char.ofNat 0x7d) then
    parseHyphenated cs.tail.dropLast
  else if cs.length = 45 ∧ cs.take 9 = urn then parseHyphenated (cs.drop 9)
  else parseHyphenated cs

theorem hexDigits_length (k n : Nat) : (hexDigits k n).length = k := by
  induction k generalizing n with
  | zero => rfl
  | succ k ih => rw [hexDigits, List.length_append, ih, List.length_singleton]

theorem readHex_append (cs ds : List Char) (n : Nat) :
    readHex (cs ++ ds) n = (readHex cs n).bind (readHex ds) := by
  induction cs generalizing n with
  | nil => rfl
  | cons c cs ih =>
    rw [List.cons_append, readHex, readHex]
    cases Json.hexVal c with
    | none => rfl
    | some d => exact ih _

theorem readHex_hexDigits (k n m : Nat) :
    readHex (hexDigits k n) m = some (m * 16 ^ k + n % 16 ^ k) := by
  induction k generalizing n m with
  | zero => simp [hexDigits, readHex, Nat.mod_one]
  | succ k ih =>
    rw [hexDigits, readHex_append, ih, Option.bind_some, readHex,
      Json.hexVal_digitChar (Nat.mod_lt _ (by decide)), Option.bind_some, readHex]
    congr 1
    have hmod : n % 16 ^ (k + 1) = n / 16 % 16 ^ k * 16 + n % 16 := by
      rw [Nat.pow_succ', Nat.mod_mul]
      omega
    rw [hmod, Nat.pow_succ, Nat.add_mul, Nat.mul_assoc, Nat.add_assoc]

/-- The digits of a UUID are those of its groups. -/
theorem readHex_text (n : Nat) :
    readHex (hexDigits 8 (n / 16 ^ 24) ++ hexDigits 4 (n / 16 ^ 20) ++
      hexDigits 4 (n / 16 ^ 16) ++ hexDigits 4 (n / 16 ^ 12) ++ hexDigits 12 n) 0 =
      some (n % 16 ^ 32) := by
  simp only [readHex_append, readHex_hexDigits, Option.bind_some, Option.some.injEq]
  omega

/-- The hyphenated form gives back its five groups. -/
theorem parseHyphenated_groups {a b c d e : List Char} (ha : a.length = 8) (hb : b.length = 4)
    (hc : c.length = 4) (hd : d.length = 4) (he : e.length = 12) :
    parseHyphenated (a ++ '-' :: b ++ '-' :: c ++ '-' :: d ++ '-' :: e) =
      parseSimple (a ++ b ++ c ++ d ++ e) := by
  unfold parseHyphenated
  rw [if_pos]
  · congr 1
    simp [List.drop_append, ha, hb, hc, hd, List.drop_eq_nil_of_le]
  · simp [ha, hb, hc, hd, he]

theorem text_length (u : Uuid) : (text u).length = 36 := by
  simp [text, hexDigits_length]

theorem utf8Len_hexDigits (k n : Nat) : String.utf8Len (hexDigits k n) = k := by
  induction k generalizing n with
  | zero => rfl
  | succ k ih =>
    rw [hexDigits, String.utf8Len_append, ih, String.utf8Len_cons, String.utf8Len_nil,
      Json.utf8Size_digitChar (Nat.mod_lt _ (by decide))]

theorem utf8Len_text (u : Uuid) : String.utf8Len (text u) = 36 := by
  have h : ('-' : Char).utf8Size = 1 := by decide
  simp only [text, List.cons_append, List.append_assoc, String.utf8Len_append,
    String.utf8Len_cons, utf8Len_hexDigits, h]

theorem parse_text (u : Uuid) : parse (String.ofList (text u)) = some u := by
  have hlen := text_length u
  unfold parse
  simp only [String.toList_ofList, hlen]
  rw [if_neg (by decide), if_neg (by simp), if_neg (by simp), text,
    parseHyphenated_groups (hexDigits_length ..) (hexDigits_length ..) (hexDigits_length ..)
      (hexDigits_length ..) (hexDigits_length ..)]
  unfold parseSimple
  rw [if_pos (by simp [hexDigits_length]), readHex_text, Option.map_some,
    show 16 ^ 32 = 2 ^ 128 from by norm_num, Nat.mod_eq_of_lt u.isLt, BitVec.ofNat_toNat,
    BitVec.setWidth_eq]

end Uuid

end Porthop.Git
