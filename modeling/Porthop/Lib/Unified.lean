import Mathlib.Data.List.Basic
import Mathlib.Tactic.Common

/- Unified diffs: scripts that keep, drop and add lines, and hunks, which are the stretches of a
   script where something changes, each with its place in the first image.

   Some lines of a script may be left out: an added line is then not there, and a dropped line is
   kept. A hunk with nothing to do may be left out as a whole. -/
namespace Porthop.Unified

inductive Mark where
  | keep | drop | add
  deriving DecidableEq

namespace Mark

/-- The mark of a line that is left out of a script, if it is there at all. -/
def unwanted : Mark → Option Mark
  | keep => some keep
  | drop => some keep
  | add => none

end Mark

section
variable {α : Type}

abbrev Script (α : Type) := List (Mark × α)

def before (s : Script α) : List α := (s.filter fun l => l.1 ≠ .add).map Prod.snd

def after (s : Script α) : List α := (s.filter fun l => l.1 ≠ .drop).map Prod.snd

def keepAll (as : List α) : Script α := as.map fun a => (.keep, a)

theorem after_cons (l : Mark × α) (s : Script α) :
    after (l :: s) = (if l.1 = .drop then [] else [l.2]) ++ after s := by
  by_cases h : l.1 = .drop <;> simp [after, h]

/-! ## Some of the lines -/

/-- A line of a script, and whether it is wanted. -/
abbrev Choice (α : Type) := List (Bool × Mark × α)

def Choice.script (s : Choice α) : Script α := s.map Prod.snd

/-- The script with only the wanted changes. -/
def Choice.chosen (s : Choice α) : Script α :=
  s.filterMap fun l => if l.1 then some l.2 else l.2.1.unwanted.map fun m => (m, l.2.2)

/-- Whether a line is there after the wanted changes. -/
def stays (wanted : Bool) : Mark → Bool
  | .keep => true
  | .drop => !wanted
  | .add => wanted

/-- The first image with the wanted changes. -/
def Choice.result (s : Choice α) : List α :=
  (s.filter fun l => stays l.1 l.2.1).map fun l => l.2.2

/-- Lines that stay as they are. -/
def unchanged (as : List α) : Choice α := (keepAll as).map fun l => (false, l)

/-- A hunk with the number of lines before it in the first image. -/
abbrev Placed (α : Type) := Nat × Script α

section
variable {η : Type} (lines : η → Choice α) (does : η → Bool)

/-- Unchanged lines with a hunk behind each stretch of them, and what comes behind the last. -/
def whole (parts : List (List α × η)) (last : List α) : Choice α :=
  (parts.flatMap fun p => unchanged p.1 ++ lines p.2) ++ unchanged last

/-- The hunks that are done, from where so many lines come before. -/
def placed : Nat → List (List α × η) → List (Placed α)
  | _, [] => []
  | n, (gap, h) :: parts =>
    (if does h then [(n + gap.length, Choice.chosen (lines h))] else []) ++
      placed (n + gap.length + (before (Choice.script (lines h))).length) parts

end

variable [DecidableEq α]

/-- Hunks one after the other: each has to find its lines at its place. -/
def apply : Nat → List (Placed α) → List α → Option (List α)
  | _, [], as => some as
  | n, (place, s) :: hs, as =>
    if n ≤ place ∧ (before s).isPrefixOf (as.drop (place - n)) then
      (apply (place + (before s).length) hs (as.drop (place - n + (before s).length))).map
        fun rest => as.take (place - n) ++ after s ++ rest
    else none

section
variable {η : Type} {lines : η → Choice α} {does : η → Bool}

end

end

end Porthop.Unified
