import Porthop.Git.Leaks

/- The log of a request shows nothing of what is hidden, as far as its cut allows, and the
   client takes every log that the agent sends. -/
namespace Porthop.Git.Logs

open Agent (isControl isWhitespace)
open Inclusive (splitInclusive Shaped)
open Utf8 (Glyph glyphs chars cut width replacement)

/-! ## A sensitive word in one output only -/

/-- A line before the cut has a sensitive word in one of the outputs only. -/
def Tells (a b : List UInt8) : Prop :=
  ∃ us us' l l' vs vs', lines (glyphs a) = us ++ l :: vs ∧ lines (glyphs b) = us' ++ l' :: vs' ∧
    us.length = us'.length ∧ width us.flatten + width l ≤ limit ∧
    sensitive (chars l) ≠ sensitive (chars l')

theorem TokenAlike.symm {t t' : List Glyph} (h : TokenAlike t t') : TokenAlike t' t := by
  rcases h with rfl | ⟨hurl, hurl', hbody, htrail⟩
  · exact Or.inl rfl
  · exact Or.inr ⟨hurl', hurl, hbody.symm, htrail.symm⟩

theorem LineAlike.symm {l l' : List Glyph} (h : LineAlike l l') : LineAlike l' l := by
  refine ⟨h.ending.symm, h.size.symm, ?_⟩
  rcases h.alike with ⟨hl, hl'⟩ | htokens
  · exact Or.inl ⟨hl', hl⟩
  · exact Or.inr (htokens.flip.imp fun _ _ halike => TokenAlike.symm halike)

theorem size_notice : size notice = 58 := by decide

theorem size_redact (bytes : List UInt8) (t : Bool) : size (redact bytes t) ≤ 12058 := by
  have hdisplay : size (truncate displayLimit (shownOf bytes)) ≤ 12000 := size_truncate _ _
  have hnotice : ∀ p : Prop, ∀ [Decidable p], size (if p then notice else []) ≤ 58 := by
    intro p _
    split
    · exact Nat.le_of_eq size_notice
    · exact Nat.zero_le _
  rw [redact_eq, size_append]
  exact Nat.add_le_add hdisplay (hnotice _)

theorem size_text {s : Stream} {cs : List Char} (h : s.text = some cs) : size cs ≤ 12058 := by
  unfold Stream.text at h
  split at h
  · cases h
    exact size_redact _ _
  · cases h

end Porthop.Git.Logs
