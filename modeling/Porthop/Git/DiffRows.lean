import Porthop.Git.DiffLayout

/- The rows of a split view, and what its two documents make of them. -/
namespace Porthop.Git.DiffModel

open Porthop.Lists

/-! ## The rows of the hunks -/

def Placed.old (p : Placed) : Bool := (sidesOf p.line.origin).old

def Placed.new (p : Placed) : Bool := (sidesOf p.line.origin).new

section
variable {removed added : List Placed} {p : Placed}

end

/-- The lines of one hunk. -/
def placed (hunk : AgentHunk × Nat) : List Placed :=
  hunk.1.lines.map fun line => ⟨hunk.2, hunk.1, line⟩

def rowsOf (hunk : AgentHunk × Nat) : List Row := .header hunk.2 :: hunkRows [] [] (placed hunk)

def partRows (parts : List BlockPart) : Nat := (parts.map BlockPart.rows).sum

def blockRows (blocks : List Block) : Nat := (blocks.map Block.rows).sum

/-- The rows of a column so far. -/
def Column.total (s : Column) : Nat := s.lines.length + blockRows s.blocks + partRows s.pending

section
variable {which : Row → Option Placed} {selectable : Bool} {s s' : Column} {row : Row} {p : Placed}

/-- The state after more rows: what is put in comes behind what is there. -/
def Column.Grows (s s' : Column) : Prop :=
  ∃ ls bs, s'.lines = s.lines ++ ls ∧ s'.blocks = s.blocks ++ bs ∧
    ∀ block ∈ bs, s.lines.length < block.beforeLine

theorem Column.Grows.refl (s : Column) : s.Grows s :=
  ⟨[], [], by rw [List.append_nil], by rw [List.append_nil], by simp⟩

theorem Column.Grows.trans {s'' : Column} (h : s.Grows s') (h' : s'.Grows s'') : s.Grows s'' := by
  obtain ⟨ls, bs, hls, hbs, hlt⟩ := h
  obtain ⟨ls', bs', hls', hbs', hlt'⟩ := h'
  refine ⟨ls ++ ls', bs ++ bs', by rw [hls', hls, List.append_assoc],
    by rw [hbs', hbs, List.append_assoc], fun block hmem => ?_⟩
  obtain hmem | hmem := List.mem_append.mp hmem
  · exact hlt block hmem
  · have hlen := hlt' block hmem
    rw [hls, List.length_append] at hlen
    omega

/-- No block is further down than the next line. -/
def Column.Bounded (s : Column) : Prop := ∀ block ∈ s.blocks, block.beforeLine ≤ s.lines.length + 1

end

section
variable {file : DiffFile} {kind : SideKind} {which : Row → Option Placed} {selectable : Bool}

variable {ps : List Placed} {hunks : List ModelHunk} {blocks : List Block}

end

section
variable {file : DiffFile} {selectable : Bool}

end

end Porthop.Git.DiffModel
