import Mathlib.Data.List.Dedup
import Porthop.Git.EntryIds
import Porthop.Lib.Lists

/- The paths that are handed to Git, and what is discarded (`writes.rs`).

   A selection of rows becomes a list of paths, which Git takes as they are. Git refuses the whole
   command if one of them is neither a file nor a directory in the trees the command looks at, so
   which selections it takes depends on where the paths of the rows are. -/
namespace Porthop.Git.Cli

open Tokens (EntryRef)

def stale : Error :=
  .new "STALE_SNAPSHOT" "The repository changed. Refresh before applying this operation."

/-- The paths of a set in order. -/
def pathSet (ps : List (List UInt8)) : List (List UInt8) :=
  ps.dedup.mergeSort fun a b => ¬ b < a

/-- The paths of one of the rows. -/
def idPaths (rows : List Value) (id : String) : Except Error (List (List UInt8)) :=
  if rows.any fun row => entryOf row = some id then do
    let entry ← EntryRef.decode id
    entry.paths
  else .error stale

/-- The paths of the selected rows, each with a NUL behind it. -/
def paths (rows : List Value) (ids : List String) : Except Error (List UInt8) :=
  if ids = [] ∨ 10000 < ids.length then
    .error (.invalid "Select between 1 and 10000 files.")
  else do
    let each ← ids.mapM (idPaths rows)
    .ok (Splits.terminated 0 (pathSet each.flatten))

/-! ## Where Git finds a path -/

/-- A path is one of a tree, or a directory of one. -/
def Found (tree : List UInt8 → Prop) (spec : List UInt8) : Prop := ∃ p, Covers spec p ∧ tree p

theorem Found.mono {tree tree' : List UInt8 → Prop} (h : ∀ p, tree p → tree' p) {spec : List UInt8}
    (hf : Found tree spec) : Found tree' spec := by
  obtain ⟨p, hcovers, hp⟩ := hf
  exact ⟨p, hcovers, h p hp⟩

theorem Found.self {tree : List UInt8 → Prop} {p : List UInt8} (h : tree p) : Found tree p :=
  ⟨p, .inl rfl, h⟩

namespace Trees
variable (t : Trees)

end Trees

section
variable {f : Response.ObjectFormat} {t : Trees} {cs : List Change} {c : Change}

/-! ## The paths of a selection -/

end

/-! ## A file that is in the index no more -/

end Porthop.Git.Cli
