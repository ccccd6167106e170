import Mathlib.Data.List.Basic
import Mathlib.Data.List.Infix
import Mathlib.Data.List.TakeWhile

/- Where a list first has a pattern, and the words between separators. -/
namespace Porthop.Pattern

variable {α : Type} [DecidableEq α] {pat s u v : List α}

/-- What comes before the first place that has the pattern, and what comes behind it. -/
def splitOnce (pat : List α) : List α → Option (List α × List α)
  | [] => if pat = [] then some ([], []) else none
  | a :: s =>
    if pat <+: a :: s then some ([], (a :: s).drop pat.length)
    else (splitOnce pat s).map fun r => (a :: r.1, r.2)

/-- What comes before the first place that has the pattern, or all. -/
def before (pat s : List α) : List α := ((splitOnce pat s).map Prod.fst).getD s

/-- What stands between the first two places that have the pattern. -/
def second (pat s : List α) : Option (List α) := (splitOnce pat s).map fun r => before pat r.2

/-- The pattern is found where it does not come earlier. -/
theorem splitOnce_append (hne : pat ≠ []) (h : ¬ pat <:+: u ++ pat.dropLast) (v : List α) :
    splitOnce pat (u ++ (pat ++ v)) = some (u, v) := by
  induction u with
  | nil =>
    cases pat with
    | nil => exact absurd rfl hne
    | cons a pat =>
      rw [List.nil_append, List.cons_append, splitOnce, ← List.cons_append,
        if_pos (List.prefix_append (a :: pat) v), List.drop_left]
  | cons a u ih =>
    have hearly : ¬ pat <+: a :: (u ++ (pat ++ v)) := by
      intro hstart
      refine h (List.IsPrefix.isInfix ?_)
      refine List.prefix_of_prefix_length_le hstart ?_ ?_
      · rw [List.cons_append, List.prefix_cons_inj, List.prefix_append_right_inj]
        exact (List.dropLast_prefix pat).trans (List.prefix_append pat v)
      · rw [List.length_append, List.length_cons, List.length_dropLast]
        omega
    have hlate : ¬ pat <:+: u ++ pat.dropLast :=
      fun hwhole => h (hwhole.trans (List.suffix_cons a _).isInfix)
    rw [List.cons_append, splitOnce, if_neg hearly, ih hlate]
    rfl

theorem splitOnce_eq_some (hne : pat ≠ []) : splitOnce pat s = some (u, v) ↔
    s = u ++ (pat ++ v) ∧ ¬ pat <:+: u ++ pat.dropLast := by
  constructor
  · intro h
    induction s generalizing u with
    | nil =>
      rw [splitOnce, if_neg hne] at h
      cases h
    | cons a s ih =>
      rw [splitOnce] at h
      split at h
      · rename_i hstart
        obtain ⟨t, ht⟩ := hstart
        rw [Option.some.injEq, Prod.mk.injEq] at h
        obtain ⟨rfl, hv⟩ := h
        rw [← ht, List.drop_left] at hv
        refine ⟨by rw [← hv, ← ht]; rfl, ?_⟩
        intro hwhole
        have hle := hwhole.length_le
        rw [List.nil_append, List.length_dropLast] at hle
        have hpos := List.length_pos_of_ne_nil hne
        omega
      · rename_i hearly
        obtain ⟨r, hr, heq⟩ := Option.map_eq_some_iff.mp h
        rw [Prod.mk.injEq] at heq
        obtain ⟨hs, hlate⟩ := ih (u := r.1) (by rw [hr, ← heq.2])
        rw [← heq.1, hs]
        refine ⟨rfl, ?_⟩
        rw [List.cons_append, List.infix_cons_iff, not_or]
        refine ⟨?_, hlate⟩
        intro hstart
        refine hearly (hstart.trans ?_)
        rw [hs, List.prefix_cons_inj, List.prefix_append_right_inj]
        exact (List.dropLast_prefix pat).trans (List.prefix_append pat v)
  · rintro ⟨rfl, h⟩
    exact splitOnce_append hne h v

theorem splitOnce_eq_none (hne : pat ≠ []) : splitOnce pat s = none ↔ ¬ pat <:+: s := by
  constructor
  · intro h
    induction s with
    | nil => simpa using hne
    | cons a s ih =>
      rw [splitOnce] at h
      split at h
      · cases h
      · rename_i hearly
        rw [List.infix_cons_iff, not_or]
        exact ⟨hearly, ih (Option.map_eq_none_iff.mp h)⟩
  · intro h
    cases hsome : splitOnce pat s with
    | none => rfl
    | some r =>
      obtain ⟨hs, -⟩ := (splitOnce_eq_some hne).mp hsome
      exact absurd ⟨r.1, r.2, by rw [hs, List.append_assoc]⟩ h

/-- A pattern whose last element is new at its end is found there. -/
theorem splitOnce_new {q : List α} {c : α} (hc : c ∉ u ++ q) (v : List α) :
    splitOnce (q ++ [c]) (u ++ (q ++ c :: v)) = some (u, v) := by
  have hne : q ++ [c] ≠ [] := by simp
  have h := splitOnce_append (u := u) hne ?_ v
  · rw [List.append_assoc, List.singleton_append] at h
    exact h
  · rw [List.dropLast_concat]
    intro hwhole
    exact hc (hwhole.subset (List.mem_append_right q List.mem_cons_self))

omit [DecidableEq α] in
theorem takeWhile_cut {p : α → Bool} {c : α} (hc : p c = false) (u v : List α) :
    (u ++ c :: v).takeWhile p = u.takeWhile p := by
  induction u with
  | nil => rw [List.nil_append, List.takeWhile_cons_of_neg (by simp [hc]), List.takeWhile_nil]
  | cons a u ih =>
    rw [List.cons_append, List.takeWhile_cons, List.takeWhile_cons, ih]

omit [DecidableEq α] in
theorem takeWhile_stopped {p : α → Bool} {u : List α} (h : ∃ a ∈ u, p a = false) (v : List α) :
    (u ++ v).takeWhile p = u.takeWhile p := by
  obtain ⟨a, ha, hstop⟩ := h
  obtain ⟨x, y, rfl⟩ := List.append_of_mem ha
  rw [List.append_assoc, List.cons_append, takeWhile_cut hstop, takeWhile_cut hstop]

omit [DecidableEq α] in
theorem takeWhile_all {p : α → Bool} {c : α} (hc : p c = false) (h : ∀ a ∈ u, p a = true)
    (v : List α) : (u ++ c :: v).takeWhile p = u := by
  rw [takeWhile_cut hc, List.takeWhile_eq_self_iff.mpr h]

/-- Elements at the beginning that are not those a pattern begins with come before it. -/
theorem takeWhile_before {p : α → Bool} {c : α} {q : List α} (hc : p c = false) (s : List α) :
    (before (c :: q) s).takeWhile p = s.takeWhile p := by
  unfold before
  cases h : splitOnce (c :: q) s with
  | none => rfl
  | some r =>
    obtain ⟨hs, -⟩ := (splitOnce_eq_some (List.cons_ne_nil c q)).mp h
    rw [hs, List.cons_append, takeWhile_cut hc]
    rfl

theorem before_prefix (hne : pat ≠ []) : before pat s <+: s := by
  unfold before
  cases h : splitOnce pat s with
  | none => exact List.prefix_refl s
  | some r =>
    obtain ⟨hs, -⟩ := (splitOnce_eq_some hne).mp h
    exact ⟨pat ++ r.2, hs.symm⟩

/-! ## Words -/

section
variable {α : Type} {sep : α → Bool}

/-- The parts between separators that are not empty. -/
def words (sep : α → Bool) (s : List α) : List (List α) := (s.splitOnP sep).filter (· ≠ [])

theorem words_cons_sep {c : α} (hc : sep c = true) (s : List α) :
    words sep (c :: s) = words sep s := by
  unfold words
  rw [List.splitOnP_cons_eq_if_modifyHead, if_pos hc, List.filter_cons_of_neg (by simp)]

theorem words_gap {gap : List α} (hgap : ∀ c ∈ gap, sep c = true) (s : List α) :
    words sep (gap ++ s) = words sep s := by
  induction gap with
  | nil => rfl
  | cons c gap ih =>
    obtain ⟨hc, hgap⟩ := List.forall_mem_cons.mp hgap
    rw [List.cons_append, words_cons_sep hc, ih hgap]

/-- A word with a gap behind it. -/
theorem words_word {w gap : List α} (hne : w ≠ []) (hw : ∀ c ∈ w, sep c = false)
    (hgap : gap ≠ [] ∧ ∀ c ∈ gap, sep c = true) (s : List α) :
    words sep (w ++ (gap ++ s)) = w :: words sep s := by
  obtain ⟨c, rest, rfl⟩ := List.exists_cons_of_ne_nil hgap.1
  obtain ⟨hc, hrest⟩ := List.forall_mem_cons.mp hgap.2
  have hfirst : (w ++ c :: (rest ++ s)).splitOnP sep = w :: (rest ++ s).splitOnP sep :=
    List.splitOnP_append_cons_of_forall_mem hw c hc (rest ++ s)
  rw [List.cons_append]
  unfold words
  rw [hfirst, List.filter_cons_of_pos (by simpa using hne)]
  exact congrArg (w :: ·) (words_gap hrest s)

theorem words_last {w : List α} (hne : w ≠ []) (hw : ∀ c ∈ w, sep c = false) :
    words sep w = [w] := by
  unfold words
  rw [List.splitOnP_eq_singleton hw, List.filter_cons_of_pos (by simpa using hne),
    List.filter_nil]

theorem words_before_gap {w gap : List α} (hne : w ≠ []) (hw : ∀ c ∈ w, sep c = false)
    (hgap : ∀ c ∈ gap, sep c = true) : words sep (w ++ gap) = [w] := by
  cases gap with
  | nil => rw [List.append_nil, words_last hne hw]
  | cons c gap =>
    have hwords := words_word hne hw ⟨List.cons_ne_nil c gap, hgap⟩ []
    rw [List.append_nil] at hwords
    rw [hwords]
    rfl

/-- No piece has a separator. -/
theorem mem_splitOnP {w s : List α} (h : w ∈ s.splitOnP sep) : ∀ c ∈ w, sep c = false := by
  induction s generalizing w with
  | nil =>
    rw [List.splitOnP_nil, List.mem_singleton] at h
    rw [h]
    intro c hc
    cases hc
  | cons a s ih =>
    rw [List.splitOnP_cons_eq_if_modifyHead] at h
    split at h
    · rcases List.mem_cons.mp h with rfl | hmem
      · intro c hc
        cases hc
      · exact ih hmem
    · rename_i ha
      cases hsplit : s.splitOnP sep with
      | nil => exact absurd hsplit (List.splitOnP_ne_nil sep s)
      | cons t ts =>
        rw [hsplit, List.modifyHead_cons] at h
        rcases List.mem_cons.mp h with rfl | hmem
        · intro c hc
          rcases List.mem_cons.mp hc with rfl | hc
          · exact eq_false_of_ne_true ha
          · exact ih (w := t) (by rw [hsplit]; exact List.mem_cons_self) c hc
        · exact ih (by rw [hsplit]; exact List.mem_cons_of_mem t hmem)

theorem mem_words {w s : List α} (h : w ∈ words sep s) : ∀ c ∈ w, sep c = false :=
  mem_splitOnP (List.mem_of_mem_filter h)

end

end Porthop.Pattern
