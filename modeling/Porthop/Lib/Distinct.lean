import Mathlib.Data.List.Nodup

/- The first of each key, in order. -/
namespace Porthop.Distinct

variable {α κ : Type} [DecidableEq κ] (key : α → κ)

/-- The entries whose key is neither known nor that of an earlier entry. -/
def fresh : List κ → List α → List α
  | _, [] => []
  | known, a :: as => if key a ∈ known then fresh known as else a :: fresh (key a :: known) as

variable {key} {known known' : List κ} {as : List α}

@[simp] theorem fresh_nil : fresh key known [] = [] := rfl

theorem fresh_cons_known {a : α} (h : key a ∈ known) :
    fresh key known (a :: as) = fresh key known as := if_pos h

theorem fresh_cons_new {a : α} (h : key a ∉ known) :
    fresh key known (a :: as) = a :: fresh key (key a :: known) as := if_neg h

/-- Only what is known matters, not how it is listed. -/
theorem fresh_congr (h : ∀ k, k ∈ known ↔ k ∈ known') : fresh key known as = fresh key known' as := by
  induction as generalizing known known' with
  | nil => rfl
  | cons a as ih =>
    by_cases hk : key a ∈ known
    · rw [fresh_cons_known hk, fresh_cons_known ((h _).mp hk)]
      exact ih h
    · rw [fresh_cons_new hk, fresh_cons_new fun hk' => hk ((h _).mpr hk')]
      congr 1
      apply ih
      intro k
      simp [h k]

theorem fresh_sublist : (fresh key known as).Sublist as := by
  induction as generalizing known with
  | nil => exact List.Sublist.refl _
  | cons a as ih =>
    by_cases hk : key a ∈ known
    · rw [fresh_cons_known hk]
      exact ih.cons a
    · rw [fresh_cons_new hk]
      exact ih.cons_cons a

/-- Every key stays. -/
theorem mem_keys_fresh {k : κ} :
    (k ∈ known ∨ k ∈ (fresh key known as).map key) ↔ k ∈ known ∨ k ∈ as.map key := by
  induction as generalizing known with
  | nil => simp
  | cons a as ih =>
    by_cases hk : key a ∈ known
    · rw [fresh_cons_known hk, ih, List.map_cons, List.mem_cons]
      constructor
      · rintro (h | h)
        · exact Or.inl h
        · exact Or.inr (Or.inr h)
      · rintro (h | rfl | h)
        · exact Or.inl h
        · exact Or.inl hk
        · exact Or.inr h
    · have hrest : (k ∈ key a :: known ∨ _) ↔ _ := ih
      rw [fresh_cons_new hk, List.map_cons, List.map_cons]
      simp only [List.mem_cons] at hrest ⊢
      tauto

theorem not_known_of_mem_fresh {a : α} (h : a ∈ fresh key known as) : key a ∉ known := by
  induction as generalizing known with
  | nil => simp at h
  | cons b as ih =>
    by_cases hk : key b ∈ known
    · rw [fresh_cons_known hk] at h
      exact ih h
    · rw [fresh_cons_new hk] at h
      rcases List.mem_cons.mp h with rfl | h
      · exact hk
      · exact fun hknown => ih h (List.mem_cons_of_mem _ hknown)

theorem nodup_keys_fresh : ((fresh key known as).map key).Nodup := by
  induction as generalizing known with
  | nil => exact List.nodup_nil
  | cons a as ih =>
    by_cases hk : key a ∈ known
    · rw [fresh_cons_known hk]
      exact ih
    · rw [fresh_cons_new hk, List.map_cons, List.nodup_cons]
      refine ⟨fun hmem => ?_, ih⟩
      obtain ⟨b, hb, heq⟩ := List.mem_map.mp hmem
      exact not_known_of_mem_fresh hb (by simp [heq])

/-- A list without repeated or known keys stays as it is. -/
theorem fresh_eq_self (hnodup : (as.map key).Nodup) (hnew : ∀ a ∈ as, key a ∉ known) :
    fresh key known as = as := by
  induction as generalizing known with
  | nil => rfl
  | cons a as ih =>
    rw [List.map_cons, List.nodup_cons] at hnodup
    rw [fresh_cons_new (hnew a (by simp))]
    congr 1
    apply ih hnodup.2
    intro b hb hmem
    rcases List.mem_cons.mp hmem with heq | hmem
    · exact hnodup.1 (List.mem_map.mpr ⟨b, hb, heq⟩)
    · exact hnew b (by simp [hb]) hmem

end Porthop.Distinct
