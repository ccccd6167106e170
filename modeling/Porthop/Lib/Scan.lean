import Mathlib.Data.List.Basic

/- A loop that moves an index along a list until what is left begins in some way, or beyond its
   end. -/
namespace Porthop.Scan

variable {α : Type} {stop : List α → Bool} {text : List α} {index : Nat}

/-- `while (index < text.length && !stop) index++` -/
def seek (stop : List α → Bool) (text : List α) (index : Nat) : Nat :=
  if index < text.length ∧ stop (text.drop index) = false then seek stop text (index + 1)
  else index
termination_by text.length - index

theorem seek_skip (hindex : index < text.length) (hstop : stop (text.drop index) = false) :
    seek stop text index = seek stop text (index + 1) := by
  rw [seek, if_pos ⟨hindex, hstop⟩]

theorem seek_here (h : index < text.length → stop (text.drop index) = true) :
    seek stop text index = index := by
  rw [seek, if_neg]
  rintro ⟨hindex, hstop⟩
  rw [h hindex] at hstop
  cases hstop

theorem le_seek : index ≤ seek stop text index := by
  induction index using seek.induct stop text with
  | case1 index h ih =>
    rw [seek_skip h.1 h.2]
    exact Nat.le_of_succ_le ih
  | case2 index h => exact Nat.le_of_eq (by rw [seek, if_neg h])

theorem seek_le (h : index ≤ text.length) : seek stop text index ≤ text.length := by
  induction index using seek.induct stop text with
  | case1 index hskip ih =>
    rw [seek_skip hskip.1 hskip.2]
    exact ih hskip.1
  | case2 index hhere =>
    rw [seek, if_neg hhere]
    exact h

/-- The list begins so where the loop ended, unless it ended behind the list. -/
theorem seek_stop (h : seek stop text index < text.length) :
    stop (text.drop (seek stop text index)) = true := by
  induction index using seek.induct stop text with
  | case1 index hskip ih =>
    rw [seek_skip hskip.1 hskip.2] at h ⊢
    exact ih h
  | case2 index hhere =>
    rw [seek, if_neg hhere] at h ⊢
    by_contra hstop
    exact hhere ⟨h, eq_false_of_ne_true hstop⟩

theorem seek_add {n : Nat} (hskip : ∀ i < n, index + i < text.length ∧
    stop (text.drop (index + i)) = false) (hstop : stop (text.drop (index + n)) = true) :
    seek stop text index = index + n := by
  induction n generalizing index with
  | zero => exact seek_here fun _ => hstop
  | succ n ih =>
    obtain ⟨hindex, hfirst⟩ := hskip 0 (Nat.succ_pos n)
    rw [Nat.add_zero] at hindex hfirst
    rw [seek_skip hindex hfirst, ih]
    · omega
    · intro i hi
      obtain ⟨hlt, hnot⟩ := hskip (i + 1) (Nat.succ_lt_succ hi)
      rw [show index + 1 + i = index + (i + 1) by omega]
      exact ⟨hlt, hnot⟩
    · rw [show index + 1 + n = index + (n + 1) by omega]
      exact hstop

end Porthop.Scan
