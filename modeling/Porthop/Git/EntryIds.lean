import Mathlib.Data.List.Nodup
import Porthop.Git.Grouped
import Porthop.Git.Issued

/- The last commit, the index and the working tree of a repository, and a status listing that
   tells how they differ (`status.rs`). -/
namespace Porthop.Git.Cli

open Tokens (EntryRef)

/-- What the index has for a path: a file, that one is going to be added, or the sides of a
    conflict. -/
inductive Staged where
  | absent
  | file (mode : Mode) (id : String)
  | announced
  | unmerged (base ours theirs : Stage)
  deriving DecidableEq

/-- What the last commit is compared with. -/
def Staged.stage : Staged → Stage
  | file mode id => some (mode, id)
  | _ => none

/-- The files at each path. -/
structure Trees where
  head : List UInt8 → Stage
  index : List UInt8 → Staged
  worktree : List UInt8 → Stage

/-! ## What a listing tells -/

namespace Trees

variable (t : Trees)

/-- The letter of a path in the index, against the last commit. -/
def IndexLetter (x : Option Letter) (path : List UInt8) (source : Option (List UInt8)) : Prop :=
  match x with
  | none => t.head path = (t.index path).stage
  | some .modified | some .typeChanged =>
    t.head path ≠ none ∧ (t.index path).stage ≠ none ∧ t.head path ≠ (t.index path).stage
  | some .added => t.head path = none ∧ (t.index path).stage ≠ none
  | some .deleted => t.head path ≠ none ∧ (t.index path = .absent ∨ t.index path = .announced)
  | some .renamed => t.head path = none ∧ (t.index path).stage ≠ none ∧
      ∀ old, source = some old → t.head old ≠ none ∧ (t.index old).stage = none
  | some .copied => t.head path = none ∧ (t.index path).stage ≠ none ∧
      ∀ old, source = some old → t.head old ≠ none

/-- The letter of a path in the working tree, against the index. -/
def WorktreeLetter (y : Option Letter) (path : List UInt8) (source : Option (List UInt8)) : Prop :=
  match y with
  | none => t.index path = .absent ∨
      ((t.index path).stage ≠ none ∧ t.worktree path = (t.index path).stage)
  | some .modified | some .typeChanged => (t.index path).stage ≠ none ∧
      t.worktree path ≠ none ∧ t.worktree path ≠ (t.index path).stage
  | some .added => t.index path = .announced ∧ t.worktree path ≠ none
  | some .deleted => t.index path ≠ .absent ∧ t.worktree path = none
  | some .renamed => t.index path = .announced ∧ t.worktree path ≠ none ∧
      ∀ old, source = some old → (t.index old).stage ≠ none ∧ t.worktree old = none
  | some .copied => t.index path = .announced ∧ t.worktree path ≠ none ∧
      ∀ old, source = some old → (t.index old).stage ≠ none

end Trees

/-- A pathspec is that of a file, or of the directory it is in. -/
def Covers (spec path : List UInt8) : Prop :=
  path = spec ∨
    (if spec.getLast? = some Tokens.slash then spec else spec ++ [Tokens.slash]) <+: path

namespace Change

def path : Change → List UInt8
  | .changed _ _ _ _ path _ => path
  | .unmerged _ _ _ _ _ _ path => path
  | .untracked path => path

/-- The path a file was moved from. -/
def source : Change → Option (List UInt8)
  | .changed _ _ _ _ _ source => source
  | _ => none

/-- The letter in the index. -/
def indexLetter : Change → Option Letter
  | .changed x _ _ _ _ _ => x
  | _ => none

/-- The change is one between the trees. -/
def Between (t : Trees) : Change → Prop
  | .changed x y _ _ path source =>
    t.IndexLetter x path source ∧ t.WorktreeLetter y path source
  | .unmerged _ _ _ base ours theirs path => t.index path = .unmerged base ours theirs
  | .untracked path => t.index path = .absent ∧ ∃ p, Covers path p ∧ t.worktree p ≠ none

end Change

/-- The listing tells of changes between the trees, and of each path once. A path that is not in
    the index may be listed again as one that Git does not know. -/
structure Listed (f : Response.ObjectFormat) (t : Trees) (cs : List Change) : Prop where
  reported : ∀ c ∈ cs, c.Reported f
  between : ∀ c ∈ cs, c.Between t
  tracked : ((cs.filter fun c => !c.isUntracked).map Change.path).Nodup
  untracked : ((cs.filter Change.isUntracked).map Change.path).Nodup

section
variable {f : Response.ObjectFormat} {t : Trees} {cs : List Change} {c : Change}

/-- No change is listed twice. -/
theorem Listed.nodup (h : Listed f t cs) : cs.Nodup := by
  have hparts := List.filter_append_perm Change.isUntracked cs
  rw [← hparts.nodup_iff, List.nodup_append]
  refine ⟨List.Nodup.of_map _ h.untracked, List.Nodup.of_map _ h.tracked, ?_⟩
  intro a ha b hb hab
  have hleft := (List.mem_filter.mp ha).2
  have hright := (List.mem_filter.mp hb).2
  rw [← hab, hleft] at hright
  cases hright

end

end Porthop.Git.Cli

/- Which row an entry id names.

   An id holds the paths of its row and nothing else, and what looks a row up takes the first one
   with the id. Two changes have one id in two cases only. A path that was removed from the index
   is listed once as that and once more as a path Git does not know. And a path that is moved to
   another one, which is announced to the index, may be where a staged file was moved from. -/
namespace Porthop.Git.Tokens

end Porthop.Git.Tokens

namespace Porthop.Git.Cli

open Tokens (EntryRef)

/-! ## The paths of a row -/

namespace StatusRow

def entryId (r : StatusRow) : String := (EntryRef.new r.paths).encode

end StatusRow

/-! ## Changes of one id -/

namespace Change

/-- A path that was removed from the index, and the same path as one Git does not know. -/
structure Readded (t : Trees) (c d : Change) : Prop where
  removed : c.indexLetter = some .deleted
  unmoved : c.source = none
  untracked : d.isUntracked = true
  path : d.path = c.path
  index : t.index c.path = .absent

end Change

section
variable {f : Response.ObjectFormat} {t : Trees} {cs : List Change} {c d : Change}

theorem Change.Readded.tracked (h : c.Readded t d) : c.isUntracked = false := by
  cases c with
  | untracked => cases h.removed
  | changed | unmerged => rfl

/-- The id of a row, as the functions that look it up read it. -/
def entryOf : Value → Option String
  | .obj fs => (Json.field "entryId" fs).bind Tokens.toStr
  | _ => none

/-- Git prints the paths it does not know last. -/
def Ordered (cs : List Change) : Prop :=
  cs.Pairwise fun c d => c.isUntracked = true → d.isUntracked = true

end

/-! ## A file that was removed from the index and is still there -/

end Porthop.Git.Cli
