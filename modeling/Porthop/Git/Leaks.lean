import Porthop.Git.Redacted

/- Where the cut falls into what is hidden, two outputs that are alike are redacted apart.

   The content of the line, or the body of the URL, is replaced by a filling that gets its
   word, or its sign, at its very end. The cut takes that end away, so the filling shows; two
   fillings show apart. -/
namespace Porthop.Git.Logs

open Agent (isWhitespace)
open Inclusive (splitInclusive Shaped)
open Utf8 (Glyph glyphs chars cut width replacement ascii Proper bytesOf)

/-! ## Fillings -/

def fill (c : Char) (word : List Char) (n : Nat) : List Char :=
  List.replicate (n - word.length) c ++ word

theorem Proper.replace {us m vs : List Glyph} (h : Proper (us ++ (m ++ vs))) {cs : List Char}
    (hne : cs ≠ []) (hcs : ∀ c ∈ cs, c.toNat < 0x80) : Proper (us ++ (cs.map ascii ++ vs)) := by
  have hbehind : ∀ ds : List Char, (∀ c ∈ ds, c.toNat < 0x80) → Proper (ds.map ascii ++ vs) := by
    intro ds hds
    induction ds with
    | nil => exact Utf8.Proper.right (Utf8.Proper.right h)
    | cons d ds ih =>
      obtain ⟨hd, hds⟩ := List.forall_mem_cons.mp hds
      exact Utf8.Proper.ascii_cons hd (ih hds)
  cases cs with
  | nil => exact absurd rfl hne
  | cons c cs =>
    exact Utf8.Proper.append_ascii (Utf8.Proper.left h) (hcs c List.mem_cons_self)
      (hbehind (c :: cs) hcs)

/-! ## Texts that show -/

theorem TokenAlike.refl (t : List Glyph) : TokenAlike t t := Or.inl rfl

theorem LineAlike.refl (l : List Glyph) : LineAlike l l :=
  ⟨rfl, rfl, Or.inr (List.forall₂_same.mpr fun t _ => TokenAlike.refl t)⟩

/-- Two fillings that show apart. -/
def mark (upper : Bool) : Char := if upper then '-' else '#'

end Porthop.Git.Logs
