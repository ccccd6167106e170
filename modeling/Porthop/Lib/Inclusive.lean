import Mathlib.Data.List.Basic
import Mathlib.Data.List.Forall2
import Mathlib.Data.List.Infix

/- Lists taken apart behind the elements that end a piece, where the last piece may be open.

   `Shaped` says which lists of pieces come about like this; a piece may be replaced by one
   that ends alike, and all after it by other pieces. -/
namespace Porthop.Inclusive

variable {α β : Type}

def splitInclusive (ends : α → Bool) : List α → List (List α)
  | [] => []
  | a :: as =>
    if ends a then [a] :: splitInclusive ends as
    else
      match splitInclusive ends as with
      | [] => [[a]]
      | t :: ts => (a :: t) :: ts

inductive Shaped (ends : α → Bool) : List (List α) → Prop
  | nil : Shaped ends []
  | last {t : List α} (hne : t ≠ []) (hopen : ∀ a ∈ t, ends a = false) : Shaped ends [t]
  | cons {t : List α} {s : α} {ts : List (List α)} (hopen : ∀ a ∈ t, ends a = false)
    (hs : ends s = true) (hts : Shaped ends ts) : Shaped ends ((t ++ [s]) :: ts)

variable {ends : α → Bool}

theorem splitInclusive_end {s : α} (hs : ends s = true) (as : List α) :
    splitInclusive ends (s :: as) = [s] :: splitInclusive ends as := by
  rw [splitInclusive, if_pos hs]

theorem splitInclusive_inner {a : α} (ha : ends a = false) {as t : List α} {ts : List (List α)}
    (h : splitInclusive ends as = t :: ts) : splitInclusive ends (a :: as) = (a :: t) :: ts := by
  rw [splitInclusive, if_neg (by simp [ha]), h]

theorem splitInclusive_alone {a : α} (ha : ends a = false) {as : List α}
    (h : splitInclusive ends as = []) : splitInclusive ends (a :: as) = [[a]] := by
  rw [splitInclusive, if_neg (by simp [ha]), h]

theorem flatten_splitInclusive (as : List α) : (splitInclusive ends as).flatten = as := by
  induction as with
  | nil => rfl
  | cons a as ih =>
    cases ha : ends a with
    | true => rw [splitInclusive_end ha, List.flatten_cons, ih, List.singleton_append]
    | false =>
      cases h : splitInclusive ends as with
      | nil =>
        rw [h] at ih
        rw [splitInclusive_alone ha h, ← ih]
        rfl
      | cons t ts =>
        rw [h, List.flatten_cons] at ih
        rw [splitInclusive_inner ha h, List.flatten_cons, List.cons_append, ih]

theorem shaped_splitInclusive (as : List α) : Shaped ends (splitInclusive ends as) := by
  induction as with
  | nil => exact Shaped.nil
  | cons a as ih =>
    cases ha : ends a with
    | true =>
      rw [splitInclusive_end ha]
      have hnone : ∀ b ∈ ([] : List α), ends b = false := by
        intro b hb
        cases hb
      exact Shaped.cons hnone ha ih
    | false =>
      cases h : splitInclusive ends as with
      | nil =>
        rw [splitInclusive_alone ha h]
        refine Shaped.last (List.cons_ne_nil a []) ?_
        intro b hb
        rw [List.mem_singleton.mp hb]
        exact ha
      | cons t ts =>
        rw [h] at ih
        rw [splitInclusive_inner ha h]
        cases ih with
        | last hne hopen =>
          refine Shaped.last (List.cons_ne_nil a t) ?_
          exact List.forall_mem_cons.mpr ⟨ha, hopen⟩
        | cons hopen hs hts =>
          rw [← List.cons_append]
          exact Shaped.cons (List.forall_mem_cons.mpr ⟨ha, hopen⟩) hs hts

theorem splitInclusive_closed {t : List α} (hopen : ∀ a ∈ t, ends a = false) {s : α}
    (hs : ends s = true) (as : List α) :
    splitInclusive ends (t ++ s :: as) = (t ++ [s]) :: splitInclusive ends as := by
  induction t with
  | nil => exact splitInclusive_end hs as
  | cons a t ih =>
    obtain ⟨ha, hopen⟩ := List.forall_mem_cons.mp hopen
    exact splitInclusive_inner ha (ih hopen)

theorem splitInclusive_open {t : List α} (hne : t ≠ []) (hopen : ∀ a ∈ t, ends a = false) :
    splitInclusive ends t = [t] := by
  induction t with
  | nil => exact absurd rfl hne
  | cons a t ih =>
    obtain ⟨ha, hopen⟩ := List.forall_mem_cons.mp hopen
    cases t with
    | nil => exact splitInclusive_alone ha rfl
    | cons b t => exact splitInclusive_inner ha (ih (List.cons_ne_nil b t) hopen)

/-- Pieces of this shape are the pieces of their list. -/
theorem Shaped.splitInclusive_flatten {ts : List (List α)} (h : Shaped ends ts) :
    splitInclusive ends ts.flatten = ts := by
  induction h with
  | nil => rfl
  | last hne hopen =>
    rw [List.flatten_cons, List.flatten_nil, List.append_nil]
    exact splitInclusive_open hne hopen
  | cons hopen hs hts ih =>
    rw [List.flatten_cons, List.append_assoc, List.singleton_append,
      splitInclusive_closed hopen hs, ih]

theorem Shaped.right {us vs : List (List α)} (h : Shaped ends (us ++ vs)) : Shaped ends vs := by
  induction us with
  | nil => exact h
  | cons u us ih =>
    rw [List.cons_append] at h
    generalize hall : us ++ vs = rest at h ih
    cases h with
    | last hne hopen =>
      rw [List.append_eq_nil_iff] at hall
      rw [hall.2]
      exact Shaped.nil
    | cons hopen hs hts => exact ih hts

/-- What comes before a piece may be followed by any pieces. -/
theorem Shaped.replace {us vs ws : List (List α)} {t : List α} (h : Shaped ends (us ++ t :: vs))
    (hws : Shaped ends ws) : Shaped ends (us ++ ws) := by
  induction us with
  | nil => exact hws
  | cons u us ih =>
    rw [List.cons_append] at h
    generalize hall : us ++ t :: vs = rest at h ih
    cases h with
    | last hne hopen => simp at hall
    | cons hopen hs hts => exact Shaped.cons hopen hs (ih hts)

theorem Shaped.left {us vs : List (List α)} {t : List α} (h : Shaped ends (us ++ t :: vs)) :
    Shaped ends us := by
  have hnil := h.replace Shaped.nil
  rw [List.append_nil] at hnil
  exact hnil

/-- A piece ends with an end, or it is the last one. -/
theorem Shaped.head {t : List α} {ts : List (List α)} (h : Shaped ends (t :: ts)) :
    (∃ r s, t = r ++ [s] ∧ (∀ a ∈ r, ends a = false) ∧ ends s = true ∧ Shaped ends ts) ∨
      (t ≠ [] ∧ (∀ a ∈ t, ends a = false) ∧ ts = []) := by
  cases h with
  | last hne hopen => exact Or.inr ⟨hne, hopen, rfl⟩
  | cons hopen hs hts => exact Or.inl ⟨_, _, rfl, hopen, hs, hts⟩

/-- Behind an end a new piece begins. -/
theorem splitInclusive_append {as : List α} (hclosed : ∀ a, as.getLast? = some a → ends a = true)
    (bs : List α) :
    splitInclusive ends (as ++ bs) = splitInclusive ends as ++ splitInclusive ends bs := by
  induction as with
  | nil => rfl
  | cons a as ih =>
    have hrest : ∀ b, as.getLast? = some b → ends b = true := by
      intro b hb
      refine hclosed b ?_
      rw [List.getLast?_cons, hb]
      rfl
    cases ha : ends a with
    | true =>
      rw [List.cons_append, splitInclusive_end ha, splitInclusive_end ha, ih hrest,
        List.cons_append]
    | false =>
      cases h : splitInclusive ends as with
      | nil =>
        -- `a` would be the last one
        have hnil : as = [] := by rw [← @flatten_splitInclusive _ ends as, h, List.flatten_nil]
        rw [hnil] at hclosed
        rw [hclosed a rfl] at ha
        cases ha
      | cons t ts =>
        have hall := ih hrest
        rw [h, List.cons_append] at hall
        rw [List.cons_append, splitInclusive_inner ha hall, splitInclusive_inner ha h,
          List.cons_append]

/-- An end behind the list closes the last piece. -/
theorem splitInclusive_concat {as : List α} {s : α} (hs : ends s = true)
    (hopen : ∃ a, as.getLast? = some a ∧ ends a = false) :
    ∃ ts t, splitInclusive ends as = ts ++ [t] ∧
      splitInclusive ends (as ++ [s]) = ts ++ [t ++ [s]] := by
  induction as with
  | nil =>
    obtain ⟨a, hnone, -⟩ := hopen
    cases hnone
  | cons a as ih =>
    cases as with
    | nil =>
      obtain ⟨b, hb, hlast⟩ := hopen
      rw [List.getLast?_singleton] at hb
      rw [← Option.some.inj hb] at hlast
      refine ⟨[], [a], splitInclusive_alone hlast rfl, ?_⟩
      exact splitInclusive_inner hlast (splitInclusive_end hs [])
    | cons b bs =>
      rw [List.getLast?_cons_cons] at hopen
      obtain ⟨ts, t, hts, hclosed⟩ := ih hopen
      cases ha : ends a with
      | true =>
        refine ⟨[a] :: ts, t, ?_, ?_⟩
        · rw [splitInclusive_end ha, hts, List.cons_append]
        · rw [List.cons_append, splitInclusive_end ha, hclosed, List.cons_append]
      | false =>
        cases ts with
        | nil => exact ⟨[], a :: t, splitInclusive_inner ha hts, splitInclusive_inner ha hclosed⟩
        | cons u ts =>
          refine ⟨(a :: u) :: ts, t, ?_, ?_⟩
          · exact splitInclusive_inner ha hts
          · exact splitInclusive_inner ha hclosed

/-- The pieces before another one are closed. -/
theorem Shaped.left_closed {us vs : List (List α)} {t : List α} (h : Shaped ends (us ++ t :: vs)) :
    ∀ a, us.flatten.getLast? = some a → ends a = true := by
  induction us with
  | nil =>
    intro a ha
    cases ha
  | cons u us ih =>
    intro a ha
    rcases Shaped.head h with ⟨r, s, rfl, -, hs, hrest⟩ | ⟨-, -, hnil⟩
    · rw [List.flatten_cons, List.append_assoc, List.getLast?_append, List.singleton_append,
        List.getLast?_cons] at ha
      cases hlast : us.flatten.getLast? with
      | none =>
        rw [hlast] at ha
        rw [← Option.some.inj ha]
        exact hs
      | some b =>
        rw [hlast] at ha
        rw [← Option.some.inj ha]
        exact ih hrest b hlast
    · simp at hnil

/-! ## Words -/

theorem infix_around_one {w u v : List α} {c : α} (hc : c ∉ w) (h : w <:+: u ++ c :: v) :
    w <:+: u ∨ w <:+: v := by
  obtain ⟨s, t, hst⟩ := h
  rw [List.append_assoc] at hst
  rcases List.append_eq_append_iff.mp hst with ⟨a, rfl, hrest⟩ | ⟨a, rfl, hrest⟩
  · -- the word begins in `u`
    rcases List.append_eq_append_iff.mp hrest with ⟨b, rfl, -⟩ | ⟨b, rfl, hcons⟩
    · exact Or.inl ⟨s, b, by rw [List.append_assoc]⟩
    · cases b with
      | nil =>
        rw [List.append_nil]
        exact Or.inl (List.suffix_append s a).isInfix
      | cons d b =>
        obtain ⟨rfl, -⟩ := List.cons.inj hcons
        exact absurd (List.mem_append_right a List.mem_cons_self) hc
  · cases a with
    | nil =>
      cases w with
      | nil => exact Or.inl (List.nil_infix)
      | cons d w =>
        obtain ⟨rfl, -⟩ := List.cons.inj hrest
        exact absurd List.mem_cons_self hc
    | cons d a =>
      obtain ⟨-, rfl⟩ := List.cons.inj hrest
      exact Or.inr ⟨a, t, List.append_assoc a w t⟩

end Porthop.Inclusive
