import Mathlib.Data.List.Basic
import Mathlib.Data.List.Forall2

/- Facts about positions in lists. -/
namespace Porthop.Lists

variable {α β : Type}

/-- Reading all positions gives the list, and nothing is read past its end. -/
theorem filterMap_getElem?_range {l : List α} {n : Nat} (h : l.length ≤ n) :
    (List.range n).filterMap (fun i => l[i]?) = l := by
  induction l generalizing n with
  | nil => simp
  | cons a l ih =>
    obtain ⟨n, rfl⟩ : ∃ m, n = m + 1 := ⟨n - 1, by simp only [List.length_cons] at h; omega⟩
    rw [List.range_succ_eq_map, List.filterMap_cons, List.filterMap_map]
    simpa [Function.comp_def] using ih (Nat.le_of_succ_le_succ h)

theorem getElem?_concat {l : List α} {a b : α} {i : Nat} (h : (l ++ [a])[i]? = some b) :
    l[i]? = some b ∨ (i = l.length ∧ b = a) := by
  by_cases hlt : i < l.length
  · rw [List.getElem?_append_left hlt] at h
    exact Or.inl h
  · rw [List.getElem?_append_right (Nat.not_lt.mp hlt)] at h
    obtain ⟨hzero, hb⟩ : i - l.length = 0 ∧ b = a := by
      rw [List.getElem?_singleton] at h
      split at h
      next hi => exact ⟨hi, (Option.some.inj h).symm⟩
      next => cases h
    exact Or.inr ⟨by omega, hb⟩

theorem getElem?_set_cases {xs : List α} {m n : Nat} {y z : α}
    (h : (xs.set n y)[m]? = some z) : (m = n ∧ z = y) ∨ (m ≠ n ∧ xs[m]? = some z) := by
  by_cases hmn : n = m
  · subst hmn
    rw [List.getElem?_set_self'] at h
    cases hx : xs[n]? with
    | none => simp [hx] at h
    | some a => exact .inl ⟨rfl, by simpa [hx] using h.symm⟩
  · rw [List.getElem?_set_ne hmn] at h
    exact .inr ⟨Ne.symm hmn, h⟩

theorem getElem?_set_some {xs : List α} {n : Nat} {x : α} (y : α)
    (h : xs[n]? = some x) : (xs.set n y)[n]? = some y := by
  rw [List.getElem?_set_self']
  simp [h]

theorem forall₂_map_right {R : α → β → Prop} {f : α → β} {as : List α}
    (h : ∀ a ∈ as, R a (f a)) : List.Forall₂ R as (as.map f) := by
  induction as with
  | nil => exact List.Forall₂.nil
  | cons a as ih =>
    exact List.Forall₂.cons (h a List.mem_cons_self) (ih fun b hb => h b (List.mem_cons_of_mem _ hb))

/-- What matches joined lists is joined of what matches each of them. -/
theorem forall₂_append_right {R : α → β → Prop} {as : List α} {bs cs : List β}
    (h : List.Forall₂ R as (bs ++ cs)) :
    ∃ as₁ as₂, as = as₁ ++ as₂ ∧ List.Forall₂ R as₁ bs ∧ List.Forall₂ R as₂ cs :=
  ⟨as.take bs.length, as.drop bs.length, (List.take_append_drop _ as).symm,
    List.forall₂_take_append as bs cs h, List.forall₂_drop_append as bs cs h⟩

theorem forall₂_flatten_right {R : α → β → Prop} {as : List α} {bss : List (List β)}
    (h : List.Forall₂ R as bss.flatten) :
    ∃ ass : List (List α), as = ass.flatten ∧ List.Forall₂ (List.Forall₂ R) ass bss := by
  induction bss generalizing as with
  | nil =>
    obtain rfl := List.forall₂_nil_right_iff.mp h
    exact ⟨[], rfl, .nil⟩
  | cons bs bss ih =>
    rw [List.flatten_cons] at h
    obtain ⟨as₁, as₂, rfl, hfirst, hrest⟩ := forall₂_append_right h
    obtain ⟨ass, rfl, hall⟩ := ih hrest
    exact ⟨as₁ :: ass, rfl, .cons hfirst hall⟩

theorem findSome?_congr {f g : α → Option β} {as : List α} (h : ∀ a ∈ as, f a = g a) :
    as.findSome? f = as.findSome? g := by
  induction as with
  | nil => rfl
  | cons a as ih =>
    rw [List.findSome?_cons, List.findSome?_cons, h a List.mem_cons_self,
      ih fun b hb => h b (List.mem_cons_of_mem a hb)]

/-- Elements that change nothing may be left out of a run. -/
theorem foldl_filter_skip {f : β → α → β} {q : α → Bool} {as : List α}
    (h : ∀ a ∈ as, q a = false → ∀ b, f b a = b) (b : β) :
    as.foldl f b = (as.filter q).foldl f b := by
  induction as generalizing b with
  | nil => rfl
  | cons a as ih =>
    have hrest := ih fun a' ha' => h a' (List.mem_cons_of_mem a ha')
    cases hq : q a with
    | false =>
      rw [List.filter_cons_of_neg (by simp [hq]), List.foldl_cons, h a List.mem_cons_self hq b,
        hrest]
    | true => rw [List.filter_cons_of_pos hq, List.foldl_cons, List.foldl_cons, hrest]

end Porthop.Lists
