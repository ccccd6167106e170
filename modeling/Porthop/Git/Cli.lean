import Porthop.Git.Journal
import Porthop.Lib.Lossy

/- What the readers of Git's output share (`mod.rs`): a line, a numeral, an object id. -/
namespace Porthop.Git.Cli

open MessagePack (utf8)

def failure : Error := .new "GIT_ERROR" "The Git CLI could not read this repository."

def newline : UInt8 := 10

def trimLine (value : List UInt8) : List UInt8 :=
  if value.getLast? = some newline then value.dropLast else value

def asciiHexDigit (b : UInt8) : Bool :=
  (48 ≤ b ∧ b ≤ 57) ∨ (65 ≤ b ∧ b ≤ 70) ∨ (97 ≤ b ∧ b ≤ 102)

def oid (bytes : List UInt8) : Except Error Value :=
  if (bytes.length = 40 ∨ bytes.length = 64) ∧ bytes.all asciiHexDigit then
    .ok (.obj [("algorithm", .str (if bytes.length = 40 then "sha1" else "sha256")),
      ("hex", .str (Utf8.fromUtf8Lossy bytes))])
  else .error failure

/-! ## Numerals -/

def usizeMax : Nat := 2 ^ 64 - 1

def saturatingAdd (a b : Nat) : Nat := min (a + b) usizeMax

/-- A decimal numeral, which a plus sign may stand before. -/
def parseUsize (cs : List Char) : Option Nat :=
  let ds := if cs.head? = some '+' then cs.tail else cs
  if ds ≠ [] ∧ ds.all Char.isDigit then
    let n := Nat.ofDigitChars 10 ds 0
    if n ≤ usizeMax then some n else none
  else none

/-! ## What Git prints -/

theorem parseUsize_toDigits {n : Nat} (h : n ≤ usizeMax) :
    parseUsize (Nat.toDigits 10 n) = some n := by
  have hdigit : ∀ c ∈ Nat.toDigits 10 n, c.isDigit = true := fun c hc =>
    Nat.isDigit_of_mem_toDigits (by decide) (by decide) hc
  have hsign : (Nat.toDigits 10 n).head? ≠ some '+' := by
    intro hhead
    have hplus := hdigit '+' (List.mem_of_mem_head? hhead)
    exact absurd hplus (by decide)
  have hall : Nat.toDigits 10 n ≠ [] ∧ (Nat.toDigits 10 n).all Char.isDigit :=
    ⟨Nat.toDigits_ne_nil, List.all_eq_true.mpr hdigit⟩
  rw [parseUsize]
  simp only [if_neg hsign, if_pos hall, Nat.ofDigitChars_ten_toDigits, if_pos h]

@[simp] theorem trimLine_append (bs : List UInt8) : trimLine (bs ++ [newline]) = bs := by
  rw [trimLine, if_pos List.getLast?_concat, List.dropLast_concat]

end Porthop.Git.Cli
