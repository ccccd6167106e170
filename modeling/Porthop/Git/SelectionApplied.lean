import Porthop.Git.Journal
import Porthop.Git.Selection
import Porthop.Lib.Lists

/- What the patch of a selection does.

   A diff shows how one image of a file becomes another: stretches of lines that are the same,
   with hunks between them. Applied at the places its headers name, the patch of some of the
   hunks and lines makes just their changes, in either direction, and no other. -/
namespace Porthop.Git.Cli

open Unified (Mark Choice)

abbrev Image := List (List UInt8)

/-! ## The diff of two images -/

def Hunk.oldSide (h : Hunk) : Image := (h.lines.filter fun l => l.origin ≠ .added).map Line.content

def Hunk.newSide (h : Hunk) : Image :=
  (h.lines.filter fun l => l.origin ≠ .deleted).map Line.content

/-- Stretches of lines that are the same with the hunks behind them, and what is left. -/
structure Aligned where
  parts : List (Image × Hunk)
  last : Image

namespace Aligned

def old (a : Aligned) : Image := (a.parts.flatMap fun p => p.1 ++ p.2.oldSide) ++ a.last

def new (a : Aligned) : Image := (a.parts.flatMap fun p => p.1 ++ p.2.newSide) ++ a.last

/-- The image a patch is for. -/
def source (c : Selected) (a : Aligned) : Image := if c.reverse then a.new else a.old

end Aligned

/-! ## The hunks of a patch at their places -/

def Origin.mark : Origin → Mark
  | context => .keep
  | added => .add
  | deleted => .drop

section
variable {c : Selected}

end

/-! ## What the agent reads can be printed -/

/-- At most so many lines of a file, and numbers that can be read. -/
structure Hunk.Readable (n : Nat) (h : Hunk) : Prop where
  lines : ∀ l ∈ h.lines, LineText l.content
  length : h.lines.length ≤ n
  oldStart : h.oldStart ≤ usizeMax
  newStart : h.newStart ≤ usizeMax

theorem lineText_trim {content : List UInt8} (h : LineText content) :
    LineText (trimLine content) := by
  have hkeep : trimLine (trimLine content) = trimLine content := by
    rw [trimLine, if_neg fun hlast => h (List.mem_of_getLast? hlast)]
  rw [LineText, hkeep]
  exact h

theorem Hunk.Readable.mono {n m : Nat} {h : Hunk} (hr : h.Readable n) (hle : n ≤ m) :
    h.Readable m :=
  ⟨hr.lines, Nat.le_trans hr.length hle, hr.oldStart, hr.newStart⟩

theorem Hunk.Readable.endless {n : Nat} {h : Hunk} (hr : h.Readable n) : h.endless.Readable n := by
  unfold Hunk.endless
  split
  · exact hr
  · next l hlast =>
    have hlines : h.lines = h.lines.dropLast ++ [l] := by
      rw [List.dropLast_append_getLast? l hlast]
    refine ⟨List.forall_mem_append.mpr ⟨?_, List.forall_mem_singleton.mpr ?_⟩, ?_, hr.oldStart,
      hr.newStart⟩
    · exact fun x hx => hr.lines x (List.dropLast_subset _ hx)
    · exact lineText_trim (hr.lines l (List.mem_of_getLast? hlast))
    · have hlength := hr.length
      rw [hlines] at hlength
      simpa using hlength

theorem Hunk.Readable.identify {n : Nat} {h : Hunk} (hr : h.Readable n) (hash : Value → String)
    (v : Value) : (h.identify hash v).Readable n := by
  refine ⟨fun l hl => ?_, ?_, hr.oldStart, hr.newStart⟩
  · obtain ⟨k, hk, rfl⟩ := List.mem_mapIdx.mp hl
    rw [(@identify_fields hash _ k _).2.1]
    exact hr.lines _ (List.getElem_mem hk)
  · rw [Hunk.identify, List.length_mapIdx]
    exact hr.length

section
variable {c : Selected}

/-- The file as it is behind all changes, in the direction of the patch. -/
def Aligned.target (c : Selected) (a : Aligned) : Image := if c.reverse then a.old else a.new

def sourceMode (c : Selected) (d : Delta) : Nat := if c.reverse then d.newMode else d.oldMode

/-- What a section says of its file before its hunks: its name, and its modes. -/
structure Names (c : Selected) (text : List UInt8) (d : Delta) (modes : Nat × Nat) : Prop where
  start : ∃ a b rest, text = asciis "diff --git " ++ (a ++ asciis " " ++ (b ++ asciis "\n" ++
      (modeText modes ++ rest))) ∧
    unquote a = some (asciis "a/" ++ d.newPath) ∧ unquote b = some (asciis "b/" ++ d.newPath)
  source : modes.1 = sourceMode c d

end

section
variable {c : Selected}

end

def sampleText : List UInt8 := asciis "@@ -1,2 +1,2 @@\n-a\n+b\n c\n"

end Porthop.Git.Cli
