import Mathlib.Data.List.Basic

/- Logs that grow at the end, and what holds of each entry and those before it. -/
namespace Porthop.Log

variable {α : Type} {P Q : List α → α → Prop} {log : List α}

/-- Every entry is as it should be after the entries before it. -/
def Each (P : List α → α → Prop) (log : List α) : Prop :=
  ∀ pre x post, log = pre ++ x :: post → P pre x

theorem each_nil : Each P [] := by
  intro pre x post h
  exact absurd h.symm (List.append_ne_nil_of_right_ne_nil pre (List.cons_ne_nil x post))

theorem each_concat {y : α} (h : Each P log) (hy : P log y) : Each P (log ++ [y]) := by
  intro pre x post heq
  rcases List.eq_nil_or_concat post with rfl | ⟨post', z, rfl⟩
  · obtain ⟨rfl, hx⟩ := List.append_inj' heq rfl
    rw [← List.singleton_injective hx]
    exact hy
  · have hsplit : log ++ [y] = (pre ++ x :: post') ++ [z] := by
      rw [heq, List.concat_eq_append, List.append_assoc, List.cons_append]
    exact h pre x post' (List.append_inj_left' hsplit rfl)

/-! ## One entry after another -/

/-- The entry `y` comes after the entry `x`. -/
def After (x y : α) (log : List α) : Prop := ∃ pre post, log = pre ++ x :: post ∧ y ∈ post

theorem not_after_nil {x y : α} : ¬ After x y ([] : List α) := by
  rintro ⟨pre, post, heq, -⟩
  exact List.append_ne_nil_of_right_ne_nil pre (List.cons_ne_nil x post) heq.symm

theorem after_concat {x y z : α} : After x y (log ++ [z]) ↔ After x y log ∨ (x ∈ log ∧ y = z) := by
  constructor
  · rintro ⟨pre, post, heq, hy⟩
    rcases List.eq_nil_or_concat post with rfl | ⟨post', w, rfl⟩
    · exact absurd hy List.not_mem_nil
    · have hsplit : log ++ [z] = (pre ++ x :: post') ++ [w] := by simp [heq]
      obtain ⟨hlog, hw⟩ := List.append_inj' hsplit rfl
      rw [List.concat_eq_append, List.mem_append, ← hw] at hy
      rcases hy with hy | hy
      · exact Or.inl ⟨pre, post', hlog, hy⟩
      · exact Or.inr ⟨by simp [hlog], List.mem_singleton.mp hy⟩
  · rintro (⟨pre, post, heq, hy⟩ | ⟨hx, rfl⟩)
    · exact ⟨pre, post ++ [z], by simp [heq], by simp [hy]⟩
    · obtain ⟨pre, post, heq⟩ := List.append_of_mem hx
      exact ⟨pre, post ++ [y], by simp [heq], by simp⟩

theorem After.mem {x y : α} (h : After x y log) : x ∈ log ∧ y ∈ log := by
  obtain ⟨pre, post, rfl, hy⟩ := h
  exact ⟨by simp, by simp [hy]⟩

end Porthop.Log
