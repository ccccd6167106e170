import Mathlib.Data.List.DropRight
import Mathlib.Data.List.Sort

/- The greatest of a list in increasing order, which are its end. -/
namespace Porthop.Latest

variable {α : Type} [LinearOrder α] {l m : List α} {n : Nat} {x : α}

theorem filter_above {before after : List α}
    (h : (before ++ x :: after).Pairwise fun a b => a < b) :
    (before ++ x :: after).filter (fun y => x < y) = after := by
  obtain ⟨-, hafter, hbefore⟩ := List.pairwise_append.mp h
  obtain ⟨hx, -⟩ := List.pairwise_cons.mp hafter
  rw [List.filter_append, List.filter_cons_of_neg (by simp), List.filter_eq_nil_iff.mpr,
    List.filter_eq_self.mpr, List.nil_append]
  · intro y hy
    simpa using hx y hy
  · intro y hy
    simpa using le_of_lt (hbefore y hy x List.mem_cons_self)

/-- An element is at the end if few are greater. -/
theorem mem_rtake (h : l.Pairwise fun a b => a < b) :
    x ∈ l.rtake n ↔ x ∈ l ∧ (l.filter fun y => x < y).length < n := by
  unfold List.rtake
  constructor
  · intro hx
    have hmem := List.mem_of_mem_drop hx
    refine ⟨hmem, ?_⟩
    obtain ⟨before, after, rfl⟩ := List.append_of_mem hmem
    rw [filter_above h]
    by_contra hlen
    -- the elements that are dropped reach behind `x`
    have hdrop : (before ++ [x]).length ≤ (before ++ x :: after).length - n := by
      simp only [List.length_append, List.length_cons, List.length_nil]
      omega
    have hsplit : before ++ x :: after = (before ++ [x]) ++ after := by simp
    rw [hsplit, List.drop_append, List.drop_eq_nil_of_le (by rw [← hsplit]; exact hdrop),
      List.nil_append] at hx
    have hafter := List.mem_of_mem_drop hx
    obtain ⟨-, hcons, -⟩ := List.pairwise_append.mp h
    exact lt_irrefl x ((List.pairwise_cons.mp hcons).1 x hafter)
  · rintro ⟨hmem, hlen⟩
    obtain ⟨before, after, rfl⟩ := List.append_of_mem hmem
    rw [filter_above h] at hlen
    have hdrop : (before ++ x :: after).length - n ≤ before.length := by
      simp only [List.length_append, List.length_cons]
      omega
    rw [List.drop_append_of_le_length hdrop]
    exact List.mem_append_right _ List.mem_cons_self

/-- A part that still has the end of the list has the same end. -/
theorem rtake_of_between (h : l.Pairwise fun a b => a < b) (hm : m.Sublist l)
    (hsub : l.rtake n ⊆ m) : m.rtake n = l.rtake n := by
  refine List.Pairwise.eq_of_mem_iff ((h.sublist hm).sublist (List.drop_sublist _ m))
    (h.sublist (List.drop_sublist _ l)) ?_
  intro x
  constructor
  · intro hx
    obtain ⟨hxm, hlen⟩ := (mem_rtake (h.sublist hm)).mp hx
    refine (mem_rtake h).mpr ⟨hm.subset hxm, ?_⟩
    by_contra hmany
    -- all of the end of `l` is greater, and all of it is in the part
    have hall : ∀ y ∈ l.rtake n, x < y := by
      intro y hy
      obtain ⟨hyl, hyn⟩ := (mem_rtake h).mp hy
      by_contra hyx
      have hle : (l.filter fun z => x < z).length ≤ (l.filter fun z => y < z).length := by
        refine (List.monotone_filter_right l ?_).length_le
        intro z hz
        simp only [decide_eq_true_eq] at hz ⊢
        exact lt_of_le_of_lt (not_lt.mp hyx) hz
      omega
    have hend : (l.rtake n).length = n := by
      have hfilter := List.length_filter_le (fun z => decide (x < z)) l
      unfold List.rtake
      rw [List.length_drop]
      omega
    have hsublist : (l.rtake n).Sublist (m.filter fun z => x < z) := by
      refine List.sublist_of_subperm_of_pairwise (List.subperm_of_subset ?_ ?_)
        (h.sublist (List.drop_sublist _ l))
        ((h.sublist hm).sublist List.filter_sublist)
      · exact (h.sublist (List.drop_sublist _ l)).imp fun hab => ne_of_lt hab
      · intro y hy
        exact List.mem_filter.mpr ⟨hsub hy, decide_eq_true (hall y hy)⟩
    have hle := hsublist.length_le
    omega
  · intro hx
    refine (mem_rtake (h.sublist hm)).mpr ⟨hsub hx, ?_⟩
    have hlen := ((mem_rtake h).mp hx).2
    have hle := (hm.filter fun y => decide (x < y)).length_le
    omega

end Porthop.Latest
