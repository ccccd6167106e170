import Porthop.Git.DiffText
import Porthop.Lib.Lists

/- What holds of the laid out documents.

   The lines of a document are lines of the hunks in their order, the runs are the longest parts
   of selectable lines of one hunk, and a line of both sides is in the same row of the screen on
   both. -/
namespace Porthop.Git.DiffModel

open Porthop.Lists

/-! ## Runs -/

/-- The lines a run is of. -/
def Run.part (lines : List ModelLine) (run : Run) : List ModelLine :=
  (lines.take run.last).drop (run.first - 1)

structure OneRun (lines : List ModelLine) (k : Nat) (run : Run) : Prop where
  bounds : 1 ≤ run.first ∧ run.first ≤ run.last ∧ run.last ≤ lines.length
  member : ∀ line ∈ run.part lines, line.selectable = true ∧ line.run = some k
  hunk : ∃ hunkIndex, ∀ line ∈ run.part lines, line.hunkIndex = hunkIndex
  ids : run.lineIds.map some = (run.part lines).map ModelLine.lineId

/-- The runs partition the selectable lines, and two that follow each other are in one run exactly
if they are of one hunk. -/
structure Grouped (lines : List ModelLine) (runs : List Run) : Prop where
  each : ∀ k run, runs[k]? = some run → OneRun lines k run
  unselected : ∀ line ∈ lines, line.selectable = false → line.run = none
  covered : ∀ i line, lines[i]? = some line → line.selectable = true →
    ∃ k run, line.run = some k ∧ runs[k]? = some run ∧ run.first ≤ i + 1 ∧ i + 1 ≤ run.last
  maximal : ∀ i line next, lines[i]? = some line → lines[i + 1]? = some next →
    line.selectable = true → next.selectable = true →
    (line.run = next.run ↔ line.hunkIndex = next.hunkIndex)

section
variable {lines : List ModelLine} {runs : List Run} {line : ModelLine} {run : Run} {k : Nat}

theorem Run.part_concat (h : run.last ≤ lines.length) : run.part (lines ++ [line]) = run.part lines := by
  unfold Run.part
  rw [List.take_append_of_le_length h]

theorem OneRun.concat (h : OneRun lines k run) : OneRun (lines ++ [line]) k run := by
  have hpart : run.part (lines ++ [line]) = run.part lines := Run.part_concat h.bounds.2.2
  refine ⟨⟨h.bounds.1, h.bounds.2.1, ?_⟩, ?_, ?_, ?_⟩
  · rw [List.length_append]
    exact Nat.le_trans h.bounds.2.2 (Nat.le_add_right _ _)
  · rw [hpart]
    exact h.member
  · rw [hpart]
    exact h.hunk
  · rw [hpart]
    exact h.ids

theorem getLast?_of_getElem? {prev : ModelLine} (h : lines[lines.length - 1]? = some prev) :
    lines.getLast? = some prev := by
  rw [List.getLast?_eq_getElem?, h]

/-- What is left to show when a line is put behind the others, with the runs there are then. -/
theorem Grouped.concat {runs' : List Run} (h : Grouped lines runs)
    (hruns : ∀ (k : Nat) (run : Run), runs'[k]? = some run → OneRun (lines ++ [line]) k run)
    (hnone : line.selectable = false → line.run = none)
    (hold : ∀ (k : Nat) (run : Run), runs[k]? = some run →
      ∃ run' : Run, runs'[k]? = some run' ∧ run'.first = run.first ∧ run.last ≤ run'.last)
    (hnew : line.selectable = true → ∃ (k : Nat) (run : Run), line.run = some k ∧ runs'[k]? = some run ∧
      run.first ≤ lines.length + 1 ∧ lines.length + 1 ≤ run.last)
    (hlast : ∀ prev, lines.getLast? = some prev → prev.selectable = true → line.selectable = true →
      (prev.run = line.run ↔ prev.hunkIndex = line.hunkIndex)) :
    Grouped (lines ++ [line]) runs' where
  each := hruns
  unselected l hl hsel := by
    obtain hl | hl := List.mem_append.mp hl
    · exact h.unselected l hl hsel
    · obtain rfl := List.mem_singleton.mp hl
      exact hnone hsel
  covered i l hl hsel := by
    obtain hl | ⟨rfl, rfl⟩ := getElem?_concat hl
    · obtain ⟨k, run, hk, hrun, hfirst, hlast⟩ := h.covered i l hl hsel
      obtain ⟨run', hrun', hfirst', hlast'⟩ := hold k run hrun
      exact ⟨k, run', hk, hrun', hfirst' ▸ hfirst, Nat.le_trans hlast hlast'⟩
    · exact hnew hsel
  maximal i l next hl hnext hsel hsel' := by
    obtain hnext | ⟨hi, rfl⟩ := getElem?_concat hnext
    · obtain hl | ⟨hi, -⟩ := getElem?_concat hl
      · exact h.maximal i l next hl hnext hsel hsel'
      · have := (List.getElem?_eq_some_iff.mp hnext).1
        omega
    · obtain hl | ⟨hi', -⟩ := getElem?_concat hl
      · have hprev : lines[lines.length - 1]? = some l := by
          rw [← hi, Nat.add_sub_cancel]
          exact hl
        exact hlast l (getLast?_of_getElem? hprev) hsel hsel'
      · omega

/-- A line that is not selectable. -/
theorem Grouped.skip (h : Grouped lines runs) (hsel : line.selectable = false)
    (hrun : line.run = none) : Grouped (lines ++ [line]) runs := by
  apply h.concat (fun k run hk => (h.each k run hk).concat) (fun _ => hrun)
  · intro k run hk
    exact ⟨run, hk, rfl, Nat.le_refl _⟩
  · intro htrue
    rw [hsel] at htrue
    cases htrue
  · intro prev _ _ htrue
    rw [hsel] at htrue
    cases htrue

theorem Run.part_start (line : ModelLine) (ids : List String) :
    Run.part (lines ++ [line]) ⟨ids, lines.length + 1, lines.length + 1⟩ = [line] := by
  have hlen : (lines ++ [line]).length = lines.length + 1 := by simp
  rw [Run.part, ← hlen, List.take_length, hlen, Nat.add_sub_cancel, List.drop_left]

/-- A selectable line that starts a run. -/
theorem Grouped.start (h : Grouped lines runs) {id : String} (hsel : line.selectable = true)
    (hid : line.lineId = some id) (hrun : line.run = some runs.length)
    (hlast : ∀ prev, lines.getLast? = some prev → prev.selectable = true →
      prev.hunkIndex ≠ line.hunkIndex) :
    Grouped (lines ++ [line]) (runs ++ [⟨[id], lines.length + 1, lines.length + 1⟩]) := by
  have hpart : Run.part (lines ++ [line]) ⟨[id], lines.length + 1, lines.length + 1⟩ = [line] :=
    Run.part_start line [id]
  have hone : OneRun (lines ++ [line]) runs.length ⟨[id], lines.length + 1, lines.length + 1⟩ := by
    refine ⟨⟨Nat.le_add_left _ _, Nat.le_refl _, by simp⟩, ?_, ?_, ?_⟩
    · rw [hpart]
      intro l hl
      obtain rfl := List.mem_singleton.mp hl
      exact ⟨hsel, hrun⟩
    · rw [hpart]
      refine ⟨line.hunkIndex, fun l hl => ?_⟩
      obtain rfl := List.mem_singleton.mp hl
      rfl
    · rw [hpart, List.map_singleton, List.map_singleton, hid]
  apply h.concat
  · intro k run hk
    obtain hk | ⟨rfl, rfl⟩ := getElem?_concat hk
    · exact (h.each k run hk).concat
    · exact hone
  · intro hfalse
    rw [hsel] at hfalse
    cases hfalse
  · intro k run hk
    refine ⟨run, ?_, rfl, Nat.le_refl _⟩
    rw [List.getElem?_append_left (List.getElem?_eq_some_iff.mp hk).1]
    exact hk
  · intro _
    exact ⟨_, _, hrun, List.getElem?_concat_length, Nat.le_refl _, Nat.le_refl _⟩
  · intro prev hprev hprevSel _
    apply iff_of_false
    · intro heq
      rw [List.getLast?_eq_getElem?] at hprev
      obtain ⟨k, r, hk, hr, -⟩ := h.covered _ prev hprev hprevSel
      rw [hk, hrun, Option.some.injEq] at heq
      have := (List.getElem?_eq_some_iff.mp hr).1
      omega
    · exact hlast prev hprev hprevSel

theorem Run.part_extend (hfirst : 1 ≤ run.first) (hle : run.first ≤ run.last)
    (hlast : run.last = lines.length) (ids : List String) :
    Run.part (lines ++ [line]) { run with lineIds := ids, last := lines.length + 1 } =
      run.part lines ++ [line] := by
  have hlen : (lines ++ [line]).length = lines.length + 1 := by simp
  simp only [Run.part]
  rw [← hlen, List.take_length, hlast, List.take_length, List.drop_append_of_le_length (by omega)]

/-- A selectable line that goes on with the last run. -/
theorem Grouped.extend (h : Grouped lines (runs ++ [run])) {id : String}
    (hsel : line.selectable = true) (hid : line.lineId = some id)
    (hrun : line.run = some runs.length) (hend : run.last = lines.length)
    (hprev : ∃ prev, lines.getLast? = some prev ∧ prev.run = some runs.length ∧
      prev.selectable = true ∧ prev.hunkIndex = line.hunkIndex) :
    Grouped (lines ++ [line])
      (runs ++ [{ run with lineIds := run.lineIds ++ [id], last := lines.length + 1 }]) := by
  obtain ⟨prev, hprev, hprevRun, hprevSel, hprevHunk⟩ := hprev
  have hlastRun := h.each runs.length run List.getElem?_concat_length
  have hpart : Run.part (lines ++ [line])
      { run with lineIds := run.lineIds ++ [id], last := lines.length + 1 } =
        run.part lines ++ [line] :=
    Run.part_extend hlastRun.bounds.1 hlastRun.bounds.2.1 hend _
  have hprevIn : prev ∈ run.part lines := by
    obtain ⟨before, rfl⟩ := List.getLast?_eq_some_iff.mp hprev
    rw [List.length_append, List.length_singleton] at hend
    have hbounds := hlastRun.bounds
    simp only [Run.part]
    rw [List.take_of_length_le (by simp; omega), List.drop_append_of_le_length (by omega)]
    exact List.mem_append_right _ List.mem_cons_self
  have hone : OneRun (lines ++ [line]) runs.length
      { run with lineIds := run.lineIds ++ [id], last := lines.length + 1 } := by
    have hbounds := hlastRun.bounds
    refine ⟨⟨hbounds.1, ?_, ?_⟩, ?_, ?_, ?_⟩
    · simp only
      omega
    · simp
    · rw [hpart]
      intro l hl
      obtain hl | hl := List.mem_append.mp hl
      · exact hlastRun.member l hl
      · obtain rfl := List.mem_singleton.mp hl
        exact ⟨hsel, hrun⟩
    · rw [hpart]
      obtain ⟨hunkIndex, hhunk⟩ := hlastRun.hunk
      refine ⟨hunkIndex, fun l hl => ?_⟩
      obtain hl | hl := List.mem_append.mp hl
      · exact hhunk l hl
      · obtain rfl := List.mem_singleton.mp hl
        rw [← hprevHunk]
        exact hhunk prev hprevIn
    · rw [hpart, List.map_append, List.map_append, hlastRun.ids, List.map_singleton,
        List.map_singleton, hid]
  apply h.concat
  · intro k r hk
    obtain hk | ⟨rfl, rfl⟩ := getElem?_concat hk
    · apply (h.each k r ?_).concat
      rw [List.getElem?_append_left (List.getElem?_eq_some_iff.mp hk).1]
      exact hk
    · exact hone
  · intro hfalse
    rw [hsel] at hfalse
    cases hfalse
  · intro k r hk
    obtain hk | ⟨rfl, rfl⟩ := getElem?_concat hk
    · refine ⟨r, ?_, rfl, Nat.le_refl _⟩
      rw [List.getElem?_append_left (List.getElem?_eq_some_iff.mp hk).1]
      exact hk
    · refine ⟨_, List.getElem?_concat_length, rfl, ?_⟩
      simp only
      omega
  · intro _
    refine ⟨_, _, hrun, List.getElem?_concat_length, ?_, Nat.le_refl _⟩
    have hbounds := hlastRun.bounds
    simp only
    omega
  · intro p hp _ _
    obtain rfl : prev = p := Option.some.inj (hprev.symm.trans hp)
    exact iff_of_true (hprevRun.trans hrun.symm) hprevHunk

end

/-- What the grouping has at each line. -/
structure Grouping.Ok (g : Grouping) : Prop where
  grouped : Grouped g.lines g.all
  idle : g.current = none → ∀ prev, g.lines.getLast? = some prev → prev.selectable = false
  current : ∀ run, g.current = some run → run.last = g.lines.length ∧
    ∃ prev, g.lines.getLast? = some prev ∧ prev.run = some g.runs.length ∧ prev.selectable = true

theorem Grouping.Ok.skip {g : Grouping} (h : g.Ok) {line : ModelLine}
    (hsel : line.selectable = false) (hrun : line.run = none) : (g.add line).Ok := by
  have hadd : g.add line = { lines := g.lines ++ [line], runs := g.all, current := none } :=
    dif_neg (by simp [hsel])
  rw [hadd]
  refine ⟨?_, fun _ prev hprev => ?_, fun run hnone => by cases hnone⟩
  · simp only [Grouping.all, Option.toList_none, List.append_nil]
    exact h.grouped.skip hsel hrun
  · rw [List.getLast?_concat] at hprev
    rw [← Option.some.inj hprev]
    exact hsel

/-- The state after a selectable line: its run is the current one. -/
theorem Grouping.ok_current {lines : List ModelLine} {runs : List Run} {line : ModelLine} {run : Run}
    (hgrouped : Grouped (lines ++ [line]) (runs ++ [run])) (hlast : run.last = lines.length + 1)
    (hsel : line.selectable = true) (hrun : line.run = some runs.length) :
    Grouping.Ok ⟨lines ++ [line], runs, some run⟩ where
  grouped := hgrouped
  idle hnone := by cases hnone
  current r hr := by
    cases hr
    refine ⟨?_, line, List.getLast?_concat, hrun, hsel⟩
    rw [hlast, List.length_append, List.length_singleton]

theorem Grouping.Ok.select {g : Grouping} (h : g.Ok) {line : ModelLine}
    (hsel : line.selectable = true) : (g.add line).Ok := by
  obtain ⟨id, hid⟩ := Option.isSome_iff_exists.mp (line.identified hsel)
  have hget : line.lineId.get (line.identified hsel) = id := by simp [hid]
  have hadd : g.add line =
      { lines := g.lines ++ [{ line with run := some (g.place line).1.length }]
        runs := (g.place line).1
        current := some
          { (g.place line).2 with
            lineIds := (g.place line).2.lineIds ++ [id]
            last := g.lines.length + 1 } } := by
    rw [Grouping.add, dif_pos hsel, hget]
  rw [hadd]
  -- Either a new run starts behind all the others, or the current one goes on.
  have hnew : (∀ prev, g.lines.getLast? = some prev → prev.selectable = true →
      prev.hunkIndex ≠ line.hunkIndex) →
      g.place line = (g.all, ⟨[], g.lines.length + 1, g.lines.length + 1⟩) →
      Grouping.Ok ⟨g.lines ++ [{ line with run := some (g.place line).1.length }], (g.place line).1,
        some { (g.place line).2 with
          lineIds := (g.place line).2.lineIds ++ [id], last := g.lines.length + 1 }⟩ := by
    intro hlast hplace
    rw [hplace]
    exact Grouping.ok_current (h.grouped.start hsel hid rfl hlast) rfl hsel rfl
  cases hcurrent : g.current with
  | none =>
    apply hnew
    · intro prev hprev hprevSel
      rw [h.idle hcurrent prev hprev] at hprevSel
      cases hprevSel
    · rw [Grouping.place, hcurrent]
  | some run =>
    obtain ⟨hend, prev, hprev, hprevRun, hprevSel⟩ := h.current run hcurrent
    by_cases hhunk : prev.hunkIndex = line.hunkIndex
    · have hplace : g.place line = (g.runs, run) := by
        rw [Grouping.place, hcurrent]
        simp [Grouping.goesOn, hcurrent, hprev, hhunk]
      have hall : g.all = g.runs ++ [run] := by rw [Grouping.all, hcurrent]; rfl
      rw [hplace]
      have hgrouped := h.grouped
      rw [hall] at hgrouped
      refine Grouping.ok_current (hgrouped.extend hsel hid rfl hend ?_) rfl hsel rfl
      exact ⟨prev, hprev, hprevRun, hprevSel, hhunk⟩
    · apply hnew
      · intro prev' hprev' _
        obtain rfl : prev = prev' := Option.some.inj (hprev.symm.trans hprev')
        exact hhunk
      · rw [Grouping.place, hcurrent]
        simp [Grouping.goesOn, hcurrent, hprev, hhunk]

end Porthop.Git.DiffModel
