import Mathlib.Data.List.Sort
import Mathlib.Order.Defs.LinearOrder

/- A map as its entries in the order of their keys. -/
namespace Porthop.Ordered

variable {κ β : Type} [LinearOrder κ] {k k' : κ} {f : Option β → β} {m m' : List (κ × β)}

/-- The entry of the key is changed, or comes in at its place. -/
def alter (f : Option β → β) (k : κ) : List (κ × β) → List (κ × β)
  | [] => [(k, f none)]
  | e :: m =>
    if k < e.1 then (k, f none) :: e :: m
    else if e.1 = k then (k, f (some e.2)) :: m
    else e :: alter f k m

def get (k : κ) (m : List (κ × β)) : Option β := (m.find? fun e => e.1 = k).map Prod.snd

/-- The keys are in order, so there is one entry for each. -/
def Sorted (m : List (κ × β)) : Prop := m.Pairwise fun a b => a.1 < b.1

theorem get_cons (e : κ × β) (m : List (κ × β)) :
    get k (e :: m) = if e.1 = k then some e.2 else get k m := by
  unfold get
  rw [List.find?_cons]
  by_cases h : e.1 = k
  · simp [h]
  · simp [h]

theorem get_eq_none_of_lt (h : ∀ e ∈ m, k < e.1) : get k m = none := by
  unfold get
  rw [Option.map_eq_none_iff, List.find?_eq_none]
  intro e he heq
  exact absurd (of_decide_eq_true heq) (ne_of_gt (h e he))

theorem get_alter (hm : Sorted m) :
    get k (alter f k' m) = if k' = k then some (f (get k m)) else get k m := by
  induction m with
  | nil => rw [alter, get_cons]
           by_cases h : k' = k
           · rw [if_pos h, if_pos h]
             rfl
           · rw [if_neg h, if_neg h]
  | cons e m ih =>
    obtain ⟨he, hm⟩ := List.pairwise_cons.mp hm
    rw [alter]
    split
    · rename_i hlt
      rw [get_cons]
      by_cases h : k' = k
      · have hnone : get k (e :: m) = none := by
          refine get_eq_none_of_lt ?_
          intro e' he'
          rw [← h]
          rcases List.mem_cons.mp he' with rfl | he'
          · exact hlt
          · exact lt_trans hlt (he e' he')
        rw [if_pos h, if_pos h, hnone]
      · rw [if_neg h, if_neg h]
    · split
      · rename_i heq
        rw [get_cons, get_cons]
        by_cases h : k' = k
        · rw [if_pos h, if_pos h, if_pos (heq.trans h)]
        · rw [if_neg h, if_neg h, if_neg (fun h' => h (heq.symm.trans h'))]
      · rename_i hne
        rw [get_cons, ih hm, get_cons]
        by_cases h : k' = k
        · rw [if_pos h, if_pos h, if_neg (fun h' => hne (h'.trans h.symm))]
          rw [if_neg (fun h' => hne (h'.trans h.symm))]
        · rw [if_neg h, if_neg h]

theorem mem_alter {e : κ × β} (h : e ∈ alter f k m) : e ∈ m ∨ e.1 = k := by
  induction m with
  | nil =>
    rw [List.mem_singleton.mp h]
    exact Or.inr rfl
  | cons a m ih =>
    rw [alter] at h
    split at h
    · rcases List.mem_cons.mp h with rfl | h
      · exact Or.inr rfl
      · exact Or.inl h
    · split at h
      · rcases List.mem_cons.mp h with rfl | h
        · exact Or.inr rfl
        · exact Or.inl (List.mem_cons_of_mem a h)
      · rcases List.mem_cons.mp h with rfl | h
        · exact Or.inl List.mem_cons_self
        · rcases ih h with h | h
          · exact Or.inl (List.mem_cons_of_mem a h)
          · exact Or.inr h

theorem sorted_alter (hm : Sorted m) : Sorted (alter f k m) := by
  induction m with
  | nil => exact List.pairwise_singleton _ _
  | cons e m ih =>
    obtain ⟨he, hrest⟩ := List.pairwise_cons.mp hm
    rw [alter]
    split
    · rename_i hlt
      refine List.pairwise_cons.mpr ⟨?_, hm⟩
      intro e' he'
      rcases List.mem_cons.mp he' with rfl | he'
      · exact hlt
      · exact lt_trans hlt (he e' he')
    · split
      · rename_i heq
        refine List.pairwise_cons.mpr ⟨?_, hrest⟩
        intro e' he'
        rw [← heq]
        exact he e' he'
      · rename_i hlt hne
        refine List.pairwise_cons.mpr ⟨?_, ih hrest⟩
        intro e' he'
        rcases mem_alter he' with he' | he'
        · exact he e' he'
        · rw [he']
          exact lt_of_le_of_ne (not_lt.mp hlt) hne

theorem get_eq_some (hm : Sorted m) {v : β} : get k m = some v ↔ (k, v) ∈ m := by
  induction m with
  | nil => simp [get]
  | cons e m ih =>
    obtain ⟨he, hm⟩ := List.pairwise_cons.mp hm
    rw [get_cons, List.mem_cons]
    by_cases h : e.1 = k
    · rw [if_pos h, Option.some.injEq]
      constructor
      · intro hv
        exact Or.inl (Prod.ext h.symm hv.symm)
      · rintro (heq | hmem)
        · rw [← heq]
        · exact absurd (he _ hmem) (by rw [h]; exact lt_irrefl k)
    · rw [if_neg h, ih hm]
      constructor
      · exact Or.inr
      · rintro (heq | hmem)
        · rw [← heq] at h
          exact absurd rfl h
        · exact hmem

/-- Two maps that give the same for each key are the same. -/
theorem ext (hm : Sorted m) (hm' : Sorted m') (h : ∀ k, get k m = get k m') : m = m' := by
  have hperm : m.Perm m' := by
    refine (List.perm_ext_iff_of_nodup ?_ ?_).mpr ?_
    · exact hm.imp fun hab heq => absurd hab (by rw [heq]; exact lt_irrefl _)
    · exact hm'.imp fun hab heq => absurd hab (by rw [heq]; exact lt_irrefl _)
    · intro e
      rw [← get_eq_some hm (k := e.1) (v := e.2), ← get_eq_some hm' (k := e.1) (v := e.2), h]
  exact hperm.eq_of_pairwise (fun a b _ _ hab hba => absurd hab (not_lt_of_gt hba)) hm hm'

/-! ## Runs of changes -/

section
variable {γ : Type}

/-- What belongs to a key. -/
def under (k : κ) (cs : List (κ × γ)) : List (κ × γ) := cs.filter fun c => c.1 = k

theorem mem_under {cs : List (κ × γ)} {c : κ × γ} : c ∈ under k cs ↔ c ∈ cs ∧ c.1 = k := by
  rw [under, List.mem_filter, decide_eq_true_iff]

/-- What a run of changes does to one key is what those to this key do to it. -/
theorem get_foldl (change : κ × γ → Option β → β) (cs : List (κ × γ)) (hm : Sorted m) :
    Sorted (cs.foldl (fun m c => alter (change c) c.1 m) m) ∧
      get k (cs.foldl (fun m c => alter (change c) c.1 m) m) =
        (under k cs).foldl (fun v c => some (change c v)) (get k m) := by
  induction cs generalizing m with
  | nil => exact ⟨hm, rfl⟩
  | cons c cs ih =>
    obtain ⟨hsorted, hget⟩ := ih (sorted_alter (f := change c) (k := c.1) hm)
    refine ⟨hsorted, ?_⟩
    rw [List.foldl_cons, hget, get_alter hm, under, under]
    by_cases h : c.1 = k
    · rw [List.filter_cons_of_pos (by simpa using h), if_pos h, List.foldl_cons]
    · rw [List.filter_cons_of_neg (by simpa using h), if_neg h]

/-- The last of a key, among what several parts hold. -/
theorem getLast?_under_flatMap {δ : Type} (f : δ → List (κ × γ)) (ds : List δ) :
    (under k (ds.flatMap f)).getLast? =
      ds.reverse.findSome? fun d => (under k (f d)).getLast? := by
  induction ds with
  | nil => rfl
  | cons d ds ih =>
    have hsplit : under k ((d :: ds).flatMap f) = under k (f d) ++ under k (ds.flatMap f) := by
      rw [List.flatMap_cons, under, List.filter_append]
      rfl
    rw [hsplit, List.getLast?_append, ih, List.reverse_cons, List.findSome?_append,
      List.findSome?_singleton]

end

theorem sorted_map {γ : Type} (g : β → γ) (hm : Sorted m) :
    Sorted (m.map fun e => (e.1, g e.2)) := List.pairwise_map.mpr hm

theorem get_map {γ : Type} (g : β → γ) :
    get k (m.map fun e => (e.1, g e.2)) = (get k m).map g := by
  induction m with
  | nil => rfl
  | cons e m ih =>
    rw [List.map_cons, get_cons, get_cons, ih]
    by_cases h : e.1 = k
    · rw [if_pos h, if_pos h]
      rfl
    · rw [if_neg h, if_neg h]

end Porthop.Ordered
