/- A list cut into pieces of a size, the last one shorter. -/
namespace Porthop

section
variable {α : Type}

/-- The first `fuel` pieces. -/
def piecesOf (size : Nat) : Nat → List α → List (List α)
  | 0, _ => []
  | _ + 1, [] => []
  | fuel + 1, as => as.take size :: piecesOf size fuel (as.drop size)

def pieces (size : Nat) (as : List α) : List (List α) := piecesOf size as.length as

theorem piecesOf_cons (size fuel : Nat) {as : List α} (h : as ≠ []) :
    piecesOf size (fuel + 1) as = as.take size :: piecesOf size fuel (as.drop size) := by
  cases as with
  | nil => exact absurd rfl h
  | cons a as => rfl

theorem flatten_piecesOf {size : Nat} (hsize : 0 < size) : ∀ {fuel : Nat} {as : List α},
    as.length ≤ fuel → (piecesOf size fuel as).flatten = as
  | 0, as, h => by
    obtain rfl := List.length_eq_zero_iff.mp (Nat.le_zero.mp h)
    rfl
  | _ + 1, [], _ => rfl
  | fuel + 1, a :: as, h => by
    have hlen : ((a :: as).drop size).length ≤ fuel := by
      rw [List.length_drop]
      omega
    rw [piecesOf_cons size fuel (List.cons_ne_nil a as), List.flatten_cons,
      flatten_piecesOf hsize hlen, List.take_append_drop]

/-- The pieces make up the list. -/
theorem flatten_pieces {size : Nat} (hsize : 0 < size) (as : List α) :
    (pieces size as).flatten = as := flatten_piecesOf hsize (Nat.le_refl _)

theorem piecesOf_enough {size : Nat} (hsize : 0 < size) : ∀ {m n : Nat} {as : List α},
    as.length ≤ m → as.length ≤ n → piecesOf size m as = piecesOf size n as
  | m, n, [], _, _ => by cases m <;> cases n <;> rfl
  | 0, _, _ :: _, h, _ => absurd h (Nat.not_succ_le_zero _)
  | _ + 1, 0, _ :: _, _, h => absurd h (Nat.not_succ_le_zero _)
  | m + 1, n + 1, a :: as, hm, hn => by
    have hlen : ((a :: as).drop size).length ≤ as.length := by
      rw [List.length_drop, List.length_cons]
      omega
    have hrest : piecesOf size m ((a :: as).drop size) = piecesOf size n ((a :: as).drop size) :=
      piecesOf_enough hsize (Nat.le_trans hlen (Nat.le_of_succ_le_succ hm))
        (Nat.le_trans hlen (Nat.le_of_succ_le_succ hn))
    rw [piecesOf_cons size m (List.cons_ne_nil a as), piecesOf_cons size n (List.cons_ne_nil a as),
      hrest]

/-- The first piece and those of the rest. -/
theorem pieces_cons {size : Nat} (hsize : 0 < size) {as : List α} (h : as ≠ []) :
    pieces size as = as.take size :: pieces size (as.drop size) := by
  cases as with
  | nil => exact absurd rfl h
  | cons a as =>
    have hlen : ((a :: as).drop size).length ≤ as.length := by
      rw [List.length_drop, List.length_cons]
      omega
    have hrest := piecesOf_enough hsize hlen (Nat.le_refl ((a :: as).drop size).length)
    rw [pieces, List.length_cons, piecesOf_cons size as.length (List.cons_ne_nil a as), hrest]
    rfl

theorem length_of_mem_piecesOf {size : Nat} : ∀ {fuel : Nat} {as p : List α},
    p ∈ piecesOf size fuel as → p.length ≤ size
  | 0, _, _, h => by cases h
  | _ + 1, [], _, h => by cases h
  | fuel + 1, a :: as, p, h => by
    rw [piecesOf_cons size fuel (List.cons_ne_nil a as)] at h
    rcases List.mem_cons.mp h with rfl | h
    · exact List.length_take_le _ _
    · exact length_of_mem_piecesOf h

theorem length_of_mem_pieces {size : Nat} {as p : List α} (h : p ∈ pieces size as) :
    p.length ≤ size := length_of_mem_piecesOf h

theorem pieces_ne_nil {size : Nat} {as : List α} (h : as ≠ []) : pieces size as ≠ [] := by
  cases as with
  | nil => exact absurd rfl h
  | cons a as => exact List.cons_ne_nil _ _

end

end Porthop
