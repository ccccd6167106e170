import Mathlib.Data.List.Basic

/- A stream of symbols that comes in reads of any sizes.

   A source is what each read of it gives, in order. A read may give less than was asked for
   and nothing at all; asking for an exact number reads on until it has them, and what a read
   gave too much stays. -/
namespace Porthop

abbrev Source (β : Type) := List (List β)

namespace Source
variable {β : Type}

/-- Exactly `n` symbols and the rest, if there are as many before the end. -/
def readExact (n : Nat) : Source β → Option (List β × Source β)
  | [] => if n = 0 then some ([], []) else none
  | c :: cs =>
    if n < c.length then some (c.take n, c.drop n :: cs)
    else (readExact (n - c.length) cs).map fun r => (c ++ r.1, r.2)

/-- How the stream is cut into reads makes no difference. -/
theorem readExact_flatten (n : Nat) (s : Source β) :
    (readExact n s).map (fun r => (r.1, r.2.flatten)) =
      if n ≤ s.flatten.length then some (s.flatten.take n, s.flatten.drop n) else none := by
  induction s generalizing n with
  | nil =>
    cases n with
    | zero => rfl
    | succ n => rfl
  | cons c cs ih =>
    rw [readExact, List.flatten_cons, List.length_append]
    by_cases hshort : n < c.length
    · have hle : n ≤ c.length + cs.flatten.length := by omega
      rw [if_pos hshort, if_pos hle, List.take_append_of_le_length (Nat.le_of_lt hshort),
        List.drop_append_of_le_length (Nat.le_of_lt hshort)]
      rfl
    · have hiff : n ≤ c.length + cs.flatten.length ↔ n - c.length ≤ cs.flatten.length := by omega
      rw [if_neg hshort, Option.map_map]
      have hmap : ((fun r : List β × Source β => (r.1, r.2.flatten)) ∘
            fun r : List β × Source β => (c ++ r.1, r.2)) =
          (fun r : List β × List β => (c ++ r.1, r.2)) ∘ fun r => (r.1, r.2.flatten) := by
        funext r
        rfl
      rw [hmap, ← Option.map_map, ih]
      by_cases hle : n - c.length ≤ cs.flatten.length
      · have htake : c.take n = c := List.take_of_length_le (Nat.not_lt.mp hshort)
        have hdrop : c.drop n = [] := List.drop_of_length_le (Nat.not_lt.mp hshort)
        rw [if_pos hle, if_pos (hiff.mpr hle), List.take_append, List.drop_append, htake, hdrop]
        rfl
      · rw [if_neg hle, if_neg fun h => hle (hiff.mp h)]
        rfl

theorem readExact_append {s : Source β} {as bs : List β} (h : s.flatten = as ++ bs) :
    ∃ s', readExact as.length s = some (as, s') ∧ s'.flatten = bs := by
  have hread := readExact_flatten as.length s
  rw [h, List.length_append, if_pos (Nat.le_add_right _ _), List.take_left, List.drop_left] at hread
  obtain ⟨⟨as', s'⟩, hs, heq⟩ := Option.map_eq_some_iff.mp hread
  obtain ⟨rfl, rfl⟩ := Prod.mk.inj heq
  exact ⟨s', hs, rfl⟩

/-- What was read is the start of the stream. -/
theorem readExact_some {s s' : Source β} {n : Nat} {as : List β}
    (h : readExact n s = some (as, s')) : s.flatten = as ++ s'.flatten ∧ as.length = n := by
  have hread := readExact_flatten n s
  rw [h] at hread
  by_cases hle : n ≤ s.flatten.length
  · rw [if_pos hle] at hread
    obtain ⟨rfl, hrest⟩ := Prod.mk.inj (Option.some.inj hread)
    exact ⟨by rw [hrest, List.take_append_drop], List.length_take_of_le hle⟩
  · rw [if_neg hle] at hread
    cases hread

theorem readExact_none {s : Source β} {n : Nat} (h : s.flatten.length < n) :
    readExact n s = none := by
  have hread := readExact_flatten n s
  rw [if_neg (Nat.not_le.mpr h)] at hread
  exact Option.map_eq_none_iff.mp hread

end Source

end Porthop
