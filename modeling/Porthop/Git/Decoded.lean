import Porthop.Git.Cli
import Porthop.Git.Responses

/- What the desktop reads where the agent writes an object id.

   Git prints an id in lower-case digits. The agent takes upper-case ones too. -/
namespace Porthop.Git.Response

open MessagePack (utf8)

theorem lowerHex_val {c : Char} (h : lowerHex c) :
    (48 ≤ c.val.toNat ∧ c.val.toNat ≤ 57) ∨ (97 ≤ c.val.toNat ∧ c.val.toNat ≤ 102) := by
  simpa [lowerHex, Char.le_def, UInt32.le_iff_toNat_le] using h

theorem lowerHex_utf8Size {c : Char} (h : lowerHex c) : c.utf8Size = 1 := by
  have hval := lowerHex_val h
  have hmax : (102 : UInt32).toNat = 102 := by decide
  have hle : c.val ≤ 102 := by
    rw [UInt32.le_iff_toNat_le, hmax]
    omega
  rw [Char.utf8Size, if_pos (UInt32.le_trans hle (by decide))]

theorem lowerHex_digit {c : Char} (h : lowerHex c) : Cli.asciiHexDigit c.val.toUInt8 = true := by
  have hval := lowerHex_val h
  have hbyte : c.val.toUInt8.toNat = c.val.toNat := by
    rw [UInt32.toNat_toUInt8]
    exact Nat.mod_eq_of_lt (by omega)
  have hnum : (48 : UInt8).toNat = 48 ∧ (57 : UInt8).toNat = 57 ∧ (97 : UInt8).toNat = 97 ∧
      (102 : UInt8).toNat = 102 := by decide
  simp only [Cli.asciiHexDigit, UInt8.le_iff_toNat_le, hbyte, decide_eq_true_eq]
  omega

variable {f : ObjectFormat} {s : String}

theorem hexText_iff {n : Nat} :
    hexText n s ↔ s.toList.length = n ∧ ∀ c ∈ s.toList, lowerHex c := by
  rw [hexText, decide_eq_true_eq, List.all_eq_true]

/-- The bytes of an id. -/
theorem utf8_hexText {n : Nat} (h : hexText n s) :
    (utf8 s).length = n ∧ ∀ b ∈ utf8 s, Cli.asciiHexDigit b := by
  obtain ⟨hlen, hdigits⟩ := hexText_iff.mp h
  rw [Utf8.utf8_ascii fun c hc => lowerHex_utf8Size (hdigits c hc)]
  constructor
  · rw [List.length_map, hlen]
  · intro b hb
    obtain ⟨c, hc, rfl⟩ := List.mem_map.mp hb
    exact lowerHex_digit (hdigits c hc)

theorem oidLength_cases (f : ObjectFormat) : f.oidLength = 40 ∨ f.oidLength = 64 := by
  cases f with
  | sha1 => exact .inl rfl
  | sha256 => exact .inr rfl

/-- What the agent writes for an id. -/
def oidValue (f : ObjectFormat) (hex : String) : Value :=
  .obj [("algorithm", .str f.text), ("hex", .str hex)]

theorem oid_hexText (h : hexText f.oidLength s) : Cli.oid (utf8 s) = .ok (oidValue f s) := by
  obtain ⟨hlen, hdigits⟩ := utf8_hexText h
  have hall : ((utf8 s).length = 40 ∨ (utf8 s).length = 64) ∧
      (utf8 s).all Cli.asciiHexDigit := by
    rw [hlen]
    exact ⟨oidLength_cases f, List.all_eq_true.mpr hdigits⟩
  rw [Cli.oid, if_pos hall, Utf8.fromUtf8Lossy_utf8, hlen]
  cases f <;> rfl

@[simp] theorem ofText_text (f : ObjectFormat) : ObjectFormat.ofText f.text = some f := by
  cases f <;> rfl

/-- An id is read for what it is, in either format. -/
theorem decodeGitOid_oidValue (h : hexText f.oidLength s) :
    decodeGitOid (some (oidValue f s)) = .ok ⟨f, s⟩ := by
  have hhex : prop [("algorithm", .str f.text), ("hex", .str s)] "hex" = some (.str s) := rfl
  have halgorithm : prop [("algorithm", .str f.text), ("hex", .str s)] "algorithm" =
      some (.str f.text) := rfl
  simp only [decodeGitOid, oidValue, object_obj, hhex, halgorithm, text_str, bind, Except.bind,
    ofText_text, if_pos h]

end Porthop.Git.Response
