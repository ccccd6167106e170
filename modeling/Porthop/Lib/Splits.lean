import Mathlib.Data.List.Basic

/- Lists cut at a separator: pieces that each end with it, and a number of pieces of which
   the last takes what is left. -/
namespace Porthop.Splits

section
variable {α : Type}

/-- Pieces, each with a separator behind it. -/
def terminated (sep : α) (rs : List (List α)) : List α := rs.flatMap (· ++ [sep])

@[simp] theorem terminated_append {sep : α} (rs rs' : List (List α)) :
    terminated sep (rs ++ rs') = terminated sep rs ++ terminated sep rs' := List.flatMap_append

theorem terminated_cons {sep : α} (r : List α) (rs : List (List α)) (as : List α) :
    terminated sep (r :: rs) ++ as = r ++ sep :: (terminated sep rs ++ as) := by
  rw [terminated, List.flatMap_cons, List.append_assoc, List.append_assoc]
  rfl

variable [DecidableEq α]

/-- The pieces between separators, without the empty ones. -/
def records (sep : α) (as : List α) : List (List α) := (as.splitOn sep).filter (· ≠ [])

/-- At most so many pieces: the last one may hold separators. -/
def splitn (sep : α) : Nat → List α → List (List α)
  | 0, _ => []
  | 1, as => [as]
  | n + 2, as =>
    if sep ∈ as then as.takeWhile (· ≠ sep) :: splitn sep (n + 1) (as.dropWhile (· ≠ sep)).tail
    else [as]

variable {sep : α}

/-- The pieces, and those of what is left. -/
theorem splitOn_terminated_append {rs : List (List α)} (h : ∀ r ∈ rs, sep ∉ r) (as : List α) :
    (terminated sep rs ++ as).splitOn sep = rs ++ as.splitOn sep := by
  induction rs with
  | nil => rfl
  | cons r rs ih =>
    rw [terminated_cons, List.splitOn_append_cons_self_of_not_mem (h r List.mem_cons_self),
      ih fun r hr => h r (List.mem_cons_of_mem _ hr)]
    rfl

theorem splitOn_terminated {rs : List (List α)} (h : ∀ r ∈ rs, sep ∉ r) :
    (terminated sep rs).splitOn sep = rs ++ [[]] := by
  have happend := splitOn_terminated_append h []
  rwa [List.append_nil] at happend

/-- Pieces that are not empty and hold no separator are found again. -/
theorem records_terminated {rs : List (List α)} (h : ∀ r ∈ rs, sep ∉ r) (hne : ∀ r ∈ rs, r ≠ []) :
    records sep (terminated sep rs) = rs := by
  have hall : rs.filter (· ≠ []) = rs :=
    List.filter_eq_self.mpr fun r hr => decide_eq_true (hne r hr)
  rw [records, splitOn_terminated h, List.filter_append, hall]
  exact List.append_nil rs

theorem takeWhile_piece {r : List α} (h : sep ∉ r) (as : List α) :
    (r ++ sep :: as).takeWhile (· ≠ sep) = r ∧ (r ++ sep :: as).dropWhile (· ≠ sep) = sep :: as := by
  have hpass : ∀ a ∈ r, decide (a ≠ sep) = true := by
    intro a ha
    apply decide_eq_true
    rintro rfl
    exact h ha
  rw [List.takeWhile_append_of_pos hpass, List.dropWhile_append_of_pos hpass]
  simp

/-- A text with a separator behind it is the end of a piece. -/
theorem ends_piece {w z : List α} {rs : List (List α)} (h : ∀ r ∈ rs, sep ∉ r)
    (hw : sep ∉ w) (hz : sep ∉ z) (hin : (w ++ [sep]) <:+: terminated sep rs ++ z) :
    ∃ r ∈ rs, w <:+ r := by
  induction rs with
  | nil => exact absurd (hin.subset (List.mem_append_right w List.mem_cons_self)) hz
  | cons r rs ih =>
    obtain ⟨a, b, heq⟩ := hin
    rw [terminated_cons] at heq
    obtain ⟨htake, hdrop⟩ := takeWhile_piece (h r List.mem_cons_self) (terminated sep rs ++ z)
    by_cases ha : sep ∈ a
    · -- the text begins behind this piece
      obtain ⟨a₁, a₂, rfl, ha₁⟩ := List.eq_append_cons_of_mem ha
      have hfront : a₁ ++ sep :: (a₂ ++ (w ++ [sep]) ++ b) =
          r ++ sep :: (terminated sep rs ++ z) := by
        rw [← heq]
        simp
      rw [← hfront, (takeWhile_piece ha₁ _).2, List.cons.injEq] at hdrop
      obtain ⟨r', hr', hend⟩ := ih (fun r' hr' => h r' (List.mem_cons_of_mem r hr'))
        ⟨a₂, b, hdrop.2⟩
      exact ⟨r', List.mem_cons_of_mem r hr', hend⟩
    · have hfront : (a ++ w) ++ sep :: b = r ++ sep :: (terminated sep rs ++ z) := by
        rw [← heq]
        simp
      have hnone : sep ∉ a ++ w := by
        rw [List.mem_append, not_or]
        exact ⟨ha, hw⟩
      rw [← hfront, (takeWhile_piece hnone b).1] at htake
      exact ⟨r, List.mem_cons_self, a, htake⟩

theorem splitn_cons {r : List α} (h : sep ∉ r) (n : Nat) (as : List α) :
    splitn sep (n + 2) (r ++ sep :: as) = r :: splitn sep (n + 1) as := by
  obtain ⟨htake, hdrop⟩ := takeWhile_piece h as
  rw [splitn, if_pos (List.mem_append_right r List.mem_cons_self), htake, hdrop, List.tail_cons]

/-- So many pieces, and what is left. -/
theorem splitn_terminated {rs : List (List α)} (h : ∀ r ∈ rs, sep ∉ r) (last : List α) :
    splitn sep (rs.length + 1) (terminated sep rs ++ last) = rs ++ [last] := by
  induction rs with
  | nil => rfl
  | cons r rs ih =>
    rw [terminated_cons, List.length_cons, splitn_cons (h r List.mem_cons_self),
      ih fun r hr => h r (List.mem_cons_of_mem _ hr)]
    rfl

/-! ## Lines with their ends -/

/-- The pieces with their separators; the last one may have none. -/
def splitInclusive (sep : α) : List α → List (List α)
  | [] => []
  | a :: as =>
    if a = sep then [a] :: splitInclusive sep as
    else
      match splitInclusive sep as with
      | [] => [[a]]
      | l :: ls => (a :: l) :: ls

theorem splitInclusive_cons {r : List α} (h : sep ∉ r) (as : List α) :
    splitInclusive sep (r ++ sep :: as) = (r ++ [sep]) :: splitInclusive sep as := by
  induction r with
  | nil => rw [List.nil_append, splitInclusive, if_pos rfl, List.nil_append]
  | cons a r ih =>
    have hne : a ≠ sep := by
      rintro rfl
      exact h List.mem_cons_self
    rw [List.cons_append, splitInclusive, if_neg hne,
      ih fun hmem => h (List.mem_cons_of_mem a hmem)]
    rfl

/-- Pieces that hold no separator come back with theirs. -/
theorem splitInclusive_terminated {rs : List (List α)} (h : ∀ r ∈ rs, sep ∉ r) (as : List α) :
    splitInclusive sep (terminated sep rs ++ as) =
      rs.map (· ++ [sep]) ++ splitInclusive sep as := by
  induction rs with
  | nil => rfl
  | cons r rs ih =>
    rw [terminated_cons, splitInclusive_cons (h r List.mem_cons_self),
      ih fun r hr => h r (List.mem_cons_of_mem _ hr)]
    rfl

/-- What comes before the first separator and what comes behind it. -/
def splitOnce (sep : α) (as : List α) : Option (List α × List α) :=
  if sep ∈ as then some (as.takeWhile (· ≠ sep), (as.dropWhile (· ≠ sep)).tail) else none

theorem splitOnce_cons {r : List α} (h : sep ∉ r) (as : List α) :
    splitOnce sep (r ++ sep :: as) = some (r, as) := by
  obtain ⟨htake, hdrop⟩ := takeWhile_piece h as
  rw [splitOnce, if_pos (List.mem_append_right r List.mem_cons_self), htake, hdrop, List.tail_cons]

theorem splitOnce_none {as : List α} (h : sep ∉ as) : splitOnce sep as = none := if_neg h

end

/-! ## Groups closed by their last element -/

section
variable {α : Type} (closes : α → Bool)

/-- The closed groups, of which the first has begun, and the elements no group has yet. -/
def groups : List α → List α → List (List α) × List α
  | begun, [] => ([], begun)
  | begun, a :: as =>
    if closes a then ((begun ++ [a]) :: (groups [] as).1, (groups [] as).2)
    else groups (begun ++ [a]) as

/-- Only the last element of a group closes it. -/
def Closed (g : List α) : Prop :=
  ∃ before last, g = before ++ [last] ∧ closes last = true ∧ ∀ a ∈ before, closes a = false

variable {closes} {begun as : List α}

theorem groups_closes {a : α} (h : closes a = true) :
    groups closes begun (a :: as) =
      ((begun ++ [a]) :: (groups closes [] as).1, (groups closes [] as).2) := if_pos h

theorem groups_open {a : α} (h : closes a = false) :
    groups closes begun (a :: as) = groups closes (begun ++ [a]) as :=
  if_neg (by simp [h])

/-- The groups and what is left make up the list. -/
theorem flatten_groups :
    (groups closes begun as).1.flatten ++ (groups closes begun as).2 = begun ++ as := by
  induction as generalizing begun with
  | nil => simp [groups]
  | cons a as ih =>
    cases h : closes a with
    | true =>
      rw [groups_closes h, List.flatten_cons, List.append_assoc, ih, List.append_assoc]
      rfl
    | false => rw [groups_open h, ih, List.append_assoc, List.singleton_append]

theorem open_concat {a : α} (h : closes a = false) (hbegun : ∀ b ∈ begun, closes b = false) :
    ∀ b ∈ begun ++ [a], closes b = false := by
  intro b hb
  obtain hb | hb := List.mem_append.mp hb
  · exact hbegun b hb
  · obtain rfl := List.mem_singleton.mp hb
    exact h

theorem groups_spec (hbegun : ∀ b ∈ begun, closes b = false) :
    (∀ g ∈ (groups closes begun as).1, Closed closes g) ∧
      ∀ b ∈ (groups closes begun as).2, closes b = false := by
  induction as generalizing begun with
  | nil => exact ⟨fun g hg => by simp [groups] at hg, hbegun⟩
  | cons a as ih =>
    cases h : closes a with
    | true =>
      obtain ⟨hgroups, hrest⟩ := @ih [] (by simp)
      rw [groups_closes h]
      refine ⟨fun g hg => ?_, hrest⟩
      obtain rfl | hg := List.mem_cons.mp hg
      · exact ⟨begun, a, rfl, h, hbegun⟩
      · exact hgroups g hg
    | false =>
      rw [groups_open h]
      exact ih (open_concat h hbegun)

theorem groups_opens {before : List α} (h : ∀ a ∈ before, closes a = false) (as : List α) :
    groups closes begun (before ++ as) = groups closes (begun ++ before) as := by
  induction before generalizing begun with
  | nil => rw [List.nil_append, List.append_nil]
  | cons a before ih =>
    rw [List.cons_append, groups_open (h a List.mem_cons_self),
      ih fun b hb => h b (List.mem_cons_of_mem a hb), List.append_assoc, List.singleton_append]

/-- Closed groups are found again. -/
theorem groups_flatten {gs : List (List α)} (h : ∀ g ∈ gs, Closed closes g) :
    groups closes [] gs.flatten = (gs, []) := by
  induction gs with
  | nil => rfl
  | cons g gs ih =>
    obtain ⟨before, last, rfl, hcloses, hopen⟩ := h g List.mem_cons_self
    rw [List.flatten_cons, List.append_assoc, groups_opens hopen, List.singleton_append,
      groups_closes hcloses, ih fun g' hg' => h g' (List.mem_cons_of_mem _ hg'), List.nil_append]

end

end Porthop.Splits
