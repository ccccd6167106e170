import Mathlib.Data.Finset.Card
import Porthop.X11.Limits

/- What interning names gives, as the table of atoms gets full.

   A name keeps its atom for good. A name that is missing gets one as long as there is room, so
   names that are interned one after the other all get one if there is room for the missing. -/
namespace Porthop.X11

/-- There is room for those of the names that are missing. -/
def HasRoom (atoms : Atoms) (names : List String) : Prop :=
  atoms.length + (names.toFinset \ atoms.toFinset).card ≤ 4096

instance (atoms : Atoms) (names : List String) : Decidable (HasRoom atoms names) :=
  inferInstanceAs (Decidable (_ ≤ 4096))

namespace Atoms

variable {atoms : Atoms} {name : String} {names : List String} {id : Nat}

theorem name_zero (atoms : Atoms) : atoms.name 0 = none := rfl

theorem name_succ (atoms : Atoms) (i : Nat) : atoms.name (i + 1) = atoms[i]? := rfl

theorem mem_of_name (h : atoms.name id = some name) : name ∈ atoms := by
  cases id with
  | zero => cases h
  | succ i => exact List.mem_of_getElem? h

theorem name_append (more : Atoms) (h : atoms.name id = some name) :
    Atoms.name (atoms ++ more) id = some name := by
  cases id with
  | zero => cases h
  | succ i =>
    rw [name_succ] at h ⊢
    rw [List.getElem?_append_left (List.getElem?_eq_some_iff.mp h).1]
    exact h

/-- What interning a name does: it is there, there is no room, or it is added. -/
theorem intern_cases (atoms : Atoms) (name : String) :
    name ∈ atoms ∧ (atoms.intern name false).1 = atoms ∧
        atoms.name (atoms.intern name false).2 = some name ∨
      name ∉ atoms ∧ 4096 ≤ atoms.length ∧ atoms.intern name false = (atoms, 0) ∨
      name ∉ atoms ∧ atoms.length < 4096 ∧
        atoms.intern name false = (atoms ++ [name], atoms.length + 1) := by
  unfold intern
  cases hfound : atoms.idxOf? name with
  | some i =>
    left
    obtain ⟨hlt, hname, -⟩ := List.findIdx?_eq_some_iff_getElem.mp hfound
    have hat : atoms[i]? = some name := by
      rw [List.getElem?_eq_getElem hlt, eq_of_beq hname]
    exact ⟨List.mem_of_getElem? hat, rfl, hat⟩
  | none =>
    right
    have hnot : name ∉ atoms := by
      intro hmem
      have hall := List.findIdx?_eq_none_iff.mp hfound name hmem
      simp at hall
    by_cases hfull : 4096 ≤ atoms.length
    · left
      refine ⟨hnot, hfull, ?_⟩
      simp [hfull]
    · right
      refine ⟨hnot, Nat.lt_of_not_le hfull, ?_⟩
      simp [hfull]

/-- The names that are there keep their atoms. -/
theorem intern_grows (atoms : Atoms) (name : String) :
    ∃ more, (atoms.intern name false).1 = atoms ++ more := by
  rcases intern_cases atoms name with ⟨-, hsame, -⟩ | ⟨-, -, hfull⟩ | ⟨-, -, hnew⟩
  · exact ⟨[], by rw [hsame, List.append_nil]⟩
  · exact ⟨[], by rw [hfull, List.append_nil]⟩
  · exact ⟨[name], by rw [hnew]⟩

theorem internAll_grows (atoms : Atoms) (names : List String) :
    ∃ more, (atoms.internAll names).1 = atoms ++ more := by
  induction names generalizing atoms with
  | nil => exact ⟨[], (List.append_nil atoms).symm⟩
  | cons name names ih =>
    obtain ⟨first, hfirst⟩ := intern_grows atoms name
    obtain ⟨more, hmore⟩ := ih (atoms.intern name false).1
    refine ⟨first ++ more, ?_⟩
    calc (atoms.internAll (name :: names)).1
        = ((atoms.intern name false).1.internAll names).1 := rfl
      _ = atoms ++ first ++ more := by rw [hmore, hfirst]
      _ = atoms ++ (first ++ more) := List.append_assoc ..

/-- The names that are missing, when one of them is interned. -/
theorem missing_cons (hnot : name ∉ atoms) (names : List String) :
    ((name :: names).toFinset \ atoms.toFinset).card =
      (names.toFinset \ (atoms ++ [name]).toFinset).card + 1 := by
  have hsplit : (name :: names).toFinset \ atoms.toFinset =
      insert name (names.toFinset \ (atoms ++ [name]).toFinset) := by
    ext other
    by_cases hother : other = name
    · simp [hother, hnot]
    · simp [hother]
  rw [hsplit, Finset.card_insert_of_notMem (by simp)]

/-- All of the names get an atom exactly where there is room for those that are missing. -/
theorem internAll_names_iff (hcount : atoms.length ≤ 4096) (names : List String) :
    (atoms.internAll names).2.map (atoms.internAll names).1.name = names.map some ↔
      HasRoom atoms names := by
  induction names generalizing atoms with
  | nil => simp [internAll, HasRoom, hcount]
  | cons name names ih =>
    obtain ⟨more, hmore⟩ := internAll_grows (atoms.intern name false).1 names
    have hstep : (atoms.internAll (name :: names)).2.map (atoms.internAll (name :: names)).1.name =
        (name :: names).map some ↔
        (atoms.internAll (name :: names)).1.name (atoms.intern name false).2 = some name ∧
          ((atoms.intern name false).1.internAll names).2.map
            ((atoms.intern name false).1.internAll names).1.name = names.map some := by
      show (_ :: _ : List (Option String)) = _ :: _ ↔ _
      rw [List.cons.injEq]
      rfl
    rw [hstep]
    rcases intern_cases atoms name with ⟨hmem, hsame, hname⟩ | ⟨hnot, hfull, heq⟩ |
      ⟨hnot, hroom, heq⟩
    · -- the name is there, so the missing ones are the same
      have hnamed : (atoms.internAll (name :: names)).1.name (atoms.intern name false).2 =
          some name := by
        show ((atoms.intern name false).1.internAll names).1.name _ = _
        rw [hmore, hsame]
        exact name_append more hname
      have hmissing : (name :: names).toFinset \ atoms.toFinset =
          names.toFinset \ atoms.toFinset := by
        ext other
        by_cases hother : other = name
        · simp [hother, hmem]
        · simp [hother]
      rw [HasRoom, hmissing, hsame]
      exact ⟨fun h => (ih hcount).mp h.2, fun h => ⟨hnamed, (ih hcount).mpr h⟩⟩
    · -- there is no room, and at least this name is missing
      rw [heq]
      constructor
      · intro h
        cases h.1
      · intro h
        rw [HasRoom, missing_cons hnot] at h
        omega
    · have hnamed : (atoms.internAll (name :: names)).1.name (atoms.intern name false).2 =
          some name := by
        show ((atoms.intern name false).1.internAll names).1.name _ = _
        rw [hmore, heq]
        apply name_append more
        rw [name_succ]
        simp
      have hlength : (atoms ++ [name]).length ≤ 4096 := by
        rw [List.length_append, List.length_singleton]
        omega
      have hih := ih hlength
      rw [heq]
      rw [heq] at hnamed
      rw [HasRoom, missing_cons hnot]
      rw [HasRoom, List.length_append, List.length_singleton] at hih
      constructor
      · intro h
        have := hih.mp h.2
        omega
      · intro h
        exact ⟨hnamed, hih.mpr (by omega)⟩

/-- A name gets an atom where there is room for it. -/
theorem intern_name_iff (hcount : atoms.length ≤ 4096) (name : String) :
    (atoms.intern name false).1.name (atoms.intern name false).2 = some name ↔
      HasRoom atoms [name] := by
  rw [← internAll_names_iff hcount]
  show _ ↔ [_] = [_]
  rw [List.cons.injEq, and_iff_left rfl]
  rfl

end Atoms

end Porthop.X11
