import Mathlib.Data.List.Dedup
import Mathlib.Data.List.Sort

/- Tables with a primary key.

   A table is a list of rows no two of which have the same key. Statements are functions on
   tables; what a query without an order, or with ties in its order, returns is any list
   that fits (`OrderedBy`). Every operation comes with what a selection sees of it, so that
   a part of the table that no statement selects is followed by rewriting alone. -/
namespace Porthop

structure Table {ρ κ : Type} (key : ρ → κ) where
  rows : List ρ
  nodup : (rows.map key).Nodup

namespace Table
variable {ρ κ : Type} {key : ρ → κ}

theorem ext_rows {t u : Table key} (h : t.rows = u.rows) : t = u := by
  cases t
  cases u
  simp only at h
  subst h
  rfl

def empty : Table key := ⟨[], List.nodup_nil⟩

def select (t : Table key) (p : ρ → Bool) : List ρ := t.rows.filter p

def delete (t : Table key) (p : ρ → Bool) : Table key :=
  ⟨t.rows.filter fun r => !p r, (List.filter_sublist.map key).nodup t.nodup⟩

@[simp] theorem mem_select {t : Table key} {p : ρ → Bool} {r : ρ} :
    r ∈ t.select p ↔ r ∈ t.rows ∧ p r = true := List.mem_filter

@[simp] theorem mem_delete {t : Table key} {p : ρ → Bool} {r : ρ} :
    r ∈ (t.delete p).rows ↔ r ∈ t.rows ∧ p r = false := by
  simp [delete]

/-- Deleting leaves a selection the rows that are not deleted. -/
theorem select_delete (t : Table key) (p q : ρ → Bool) :
    (t.delete p).select q = (t.select q).filter fun r => !p r := by
  rw [select, delete, select, List.filter_comm]

theorem select_delete_of_disjoint (t : Table key) {p q : ρ → Bool}
    (h : ∀ r, q r = true → p r = false) : (t.delete p).select q = t.select q := by
  rw [select_delete]
  apply List.filter_eq_self.mpr
  intro r hr
  simp [h r (mem_select.mp hr).2]

theorem delete_eq_self {t : Table key} {p : ρ → Bool} (h : ∀ r ∈ t.rows, p r = false) :
    t.delete p = t := by
  apply ext_rows
  apply List.filter_eq_self.mpr
  intro r hr
  simp [h r hr]

theorem length_delete_le (t : Table key) (p : ρ → Bool) :
    (t.delete p).rows.length ≤ t.rows.length := List.length_filter_le _ _

/-- Two rows with one key are one row. -/
theorem eq_of_key_eq {t : Table key} {r s : ρ} (hr : r ∈ t.rows) (hs : s ∈ t.rows)
    (h : key r = key s) : r = s := List.inj_on_of_nodup_map t.nodup hr hs h

section
variable [DecidableEq κ]

/-- A row under a new key. -/
def insert (t : Table key) (r : ρ) : Option (Table key) :=
  if h : key r ∈ t.rows.map key then none
  else some ⟨t.rows ++ [r], by
    rw [List.map_append, List.map_singleton]
    exact List.nodup_append.mpr ⟨t.nodup, List.nodup_singleton _, by
      rintro k hk _ (hr : _ ∈ [key r]) rfl
      rw [List.mem_singleton.mp hr] at hk
      exact h hk⟩⟩

/-- A row under its key, whatever was there. -/
def replace (t : Table key) (r : ρ) : Table key :=
  ⟨t.rows.filter (fun s => !decide (key s = key r)) ++ [r], by
    rw [List.map_append, List.map_singleton]
    refine List.nodup_append.mpr ⟨(List.filter_sublist.map key).nodup t.nodup,
      List.nodup_singleton _, ?_⟩
    rintro k hk _ (hr : _ ∈ [key r]) rfl
    obtain ⟨s, hs, hkey⟩ := List.mem_map.mp hk
    rw [List.mem_singleton.mp hr] at hkey
    simp [hkey] at hs⟩

theorem insert_rows {t u : Table key} {r : ρ} (h : t.insert r = some u) :
    u.rows = t.rows ++ [r] := by
  unfold insert at h
  split at h
  · cases h
  · rw [← Option.some.inj h]

theorem select_insert {t u : Table key} {r : ρ} (h : t.insert r = some u) (q : ρ → Bool) :
    u.select q = t.select q ++ if q r then [r] else [] := by
  rw [select, insert_rows h, List.filter_append, select, List.filter_cons,
    List.filter_nil]

theorem select_replace (t : Table key) (r : ρ) (q : ρ → Bool) :
    (t.replace r).select q =
      ((t.select q).filter fun s => !decide (key s = key r)) ++ if q r then [r] else [] := by
  rw [select, replace, List.filter_append, List.filter_comm, select, List.filter_cons,
    List.filter_nil]

/-! ## The row of a key -/

def get (t : Table key) (k : κ) : Option ρ := t.rows.find? fun r => key r = k

theorem get_eq_some {t : Table key} {k : κ} {r : ρ} : t.get k = some r ↔ r ∈ t.rows ∧ key r = k := by
  constructor
  · intro h
    exact ⟨List.mem_of_find?_eq_some h, by simpa using List.find?_some h⟩
  · rintro ⟨hr, rfl⟩
    have hfound : (t.get (key r)).isSome = true := by
      rw [get, List.find?_isSome]
      exact ⟨r, hr, by simp⟩
    obtain ⟨s, hs⟩ := Option.isSome_iff_exists.mp hfound
    have hkey : key s = key r := by simpa using List.find?_some hs
    rw [hs, eq_of_key_eq (List.mem_of_find?_eq_some hs) hr hkey]

theorem get_eq_none {t : Table key} {k : κ} : t.get k = none ↔ ∀ r ∈ t.rows, key r ≠ k := by
  simp [get]

@[simp] theorem mem_replace {t : Table key} {r s : ρ} :
    s ∈ (t.replace r).rows ↔ (s ∈ t.rows ∧ key s ≠ key r) ∨ s = r := by
  simp [replace]

/-- A row under a key that is there takes the place of another. -/
theorem length_replace {t : Table key} {r s : ρ} (hs : s ∈ t.rows) (hkey : key s = key r) :
    (t.replace r).rows.length = t.rows.length := by
  have hlen : (t.rows.filter fun s => decide (key s = key r)).length = 1 := by
    have hnodup := (List.filter_sublist (p := fun s => decide (key s = key r)) (l := t.rows)).map key
    have hone : ∀ u ∈ t.rows.filter fun s => decide (key s = key r), u = s := by
      intro u hu
      obtain ⟨hu, hk⟩ := List.mem_filter.mp hu
      exact eq_of_key_eq hu hs ((of_decide_eq_true hk).trans hkey.symm)
    have hmem : s ∈ t.rows.filter fun s => decide (key s = key r) := by simp [hs, hkey]
    have hnd : (t.rows.filter fun s => decide (key s = key r)).Nodup :=
      List.Nodup.of_map key (hnodup.nodup t.nodup)
    have hperm : (t.rows.filter fun s => decide (key s = key r)).Perm [s] := by
      rw [List.perm_ext_iff_of_nodup hnd (List.nodup_singleton s)]
      intro u
      exact ⟨fun hu => by simp [hone u hu], fun hu => by rw [List.mem_singleton.mp hu]; exact hmem⟩
    exact hperm.length_eq
  have hsplit := List.length_eq_length_filter_add (l := t.rows) fun s => decide (key s = key r)
  simp only [replace, List.length_append, List.length_singleton]
  omega

theorem length_replace_le (t : Table key) (r : ρ) :
    (t.replace r).rows.length ≤ t.rows.length + 1 := by
  have := List.length_filter_le (fun s => !decide (key s = key r)) t.rows
  simp only [replace, List.length_append, List.length_singleton]
  omega

end

end Table

/-! ## Orders -/

section
variable {α : Type} {xs ys : List α}

/-- A list in the order of a column; rows that agree in it come in any order. -/
def OrderedBy (column : α → Int) (xs ys : List α) : Prop :=
  ys.Perm xs ∧ ys.Pairwise fun a b => column a ≤ column b

theorem OrderedBy.mem_iff {column : α → Int} (h : OrderedBy column xs ys) {a : α} :
    a ∈ ys ↔ a ∈ xs := h.1.mem_iff

/-- One such order. -/
def orderBy (column : α → Int) (xs : List α) : List α :=
  xs.insertionSort fun a b => column a ≤ column b

theorem orderedBy_orderBy (column : α → Int) (xs : List α) :
    OrderedBy column xs (orderBy column xs) := by
  have htotal : Std.Total fun a b : α => column a ≤ column b :=
    ⟨fun a b => Int.le_total (column a) (column b)⟩
  have htrans : IsTrans α fun a b => column a ≤ column b := ⟨fun a b c => Int.le_trans⟩
  exact ⟨List.perm_insertionSort _ xs, List.pairwise_insertionSort _ xs⟩

end

end Porthop
