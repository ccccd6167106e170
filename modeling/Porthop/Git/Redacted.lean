import Mathlib.Tactic.IntervalCases
import Porthop.Git.CommandLog
import Porthop.Lib.Lists

/- Outputs that are alike are redacted alike, where the cut does not fall into what is hidden.

   Pieces before the cut are whole and show the same. The piece that is cut is shown as far as
   it goes; whole bodies are still hidden, and the rest of a body shows only where the cut is
   within it. -/
namespace Porthop.Git.Logs

open Agent (isWhitespace)
open Inclusive (splitInclusive Shaped)
open Utf8 (Glyph glyphs chars cut width replacement)

/-! ## Sizes -/

theorem size_append (cs ds : List Char) : size (cs ++ ds) = size cs + size ds := by
  rw [size, List.map_append, List.sum_append]
  rfl

theorem size_cons (c : Char) (cs : List Char) : size (c :: cs) = c.utf8Size + size cs := rfl

theorem size_truncate (n : Nat) (cs : List Char) : size (truncate n cs) ≤ n := by
  induction cs generalizing n with
  | nil => exact Nat.zero_le n
  | cons c cs ih =>
    unfold truncate
    split
    · have h := ih (n - c.utf8Size)
      rw [size_cons]
      omega
    · exact Nat.zero_le n

/-! ## Texts of glyphs -/

theorem redact_glyphs (a : List UInt8) :
    (Utf8.fromUtf8Lossy (a.take limit)).toList = chars (cut limit (glyphs a)) := by
  rw [Utf8.fromUtf8Lossy_eq, String.toList_ofList, Utf8.glyphs_take]

/-- The display of an output before it is made to fit. -/
def shownOf (a : List UInt8) : List Char := display (chars (cut limit (glyphs a)))

theorem redact_eq (a : List UInt8) (t : Bool) : redact a t =
    truncate displayLimit (shownOf a) ++
      if limit < a.length ∨ t ∨ displayLimit < size (shownOf a) then notice else [] := by
  unfold redact
  rw [redact_glyphs]
  simp only [decide_eq_true_eq]
  rfl

theorem CutIn.mem {n o : Nat} {ps us vs : List (List Glyph)} {t : List Glyph}
    (h : CutIn n ps us t vs o) : t ∈ ps ∧ ∀ u ∈ us, u ∈ ps := by
  rw [h.split]
  exact ⟨List.mem_append_right us List.mem_cons_self, fun u hu => List.mem_append_left _ hu⟩

end Porthop.Git.Logs
