import Mathlib.Data.List.Basic
import Mathlib.Tactic.Common

/- A listing that is asked for page by page, each time from where the last page ended. -/
namespace Porthop.Paging

variable {γ κ α ε : Type}

/-- The pages that are got until no cursor is given or no request is left, and the cursor that
    is left. -/
def follow (ask : γ → Option κ → Except ε (List α × Option κ)) :
    List γ → Option κ → Except ε (List (List α) × Option κ)
  | [], cursor => .ok ([], cursor)
  | g :: gs, cursor =>
    match ask g cursor with
    | .error e => .error e
    | .ok (page, none) => .ok ([page], none)
    | .ok (page, some next) => (follow ask gs (some next)).map fun r => (page :: r.1, r.2)

/-- What is sent to go on from a position. -/
def cursorAt (token : Nat → κ) (n : Nat) : Option κ := if n = 0 then none else some (token n)

/-- The cursor that is given where a page ends, if anything is left. -/
def next (rows : List α) (token : Nat → κ) (n : Nat) : Option κ :=
  if n < rows.length then some (token n) else none

/-- A request at a position gives some of the rows that are left, and at least one. -/
def Serves (ask : γ → Option κ → Except ε (List α × Option κ)) (rows : List α)
    (token : Nat → κ) (Admits : Nat → γ → Prop) : Prop :=
  ∀ n g, Admits n g → n = 0 ∨ n < rows.length →
    ∃ k, n + k ≤ rows.length ∧ (n < rows.length → 0 < k) ∧
      ask g (cursorAt token n) = .ok ((rows.drop n).take k, next rows token (n + k))

variable {ask : γ → Option κ → Except ε (List α × Option κ)} {rows : List α} {token : Nat → κ}
  {Admits : Nat → γ → Prop}

/-- Following the cursors gives the rows in their order: all of them exactly if no cursor is
    left, and no cursor is left after as many requests as there are rows. No page is empty
    unless there is no row. -/
def Exact (ask : γ → Option κ → Except ε (List α × Option κ)) (rows : List α) (gs : List γ) :
    Prop :=
  ∃ pages last, follow ask gs none = .ok (pages, last) ∧ pages.flatten <+: rows ∧
    (last = none ↔ pages.flatten = rows) ∧ (rows.length ≤ gs.length → last = none) ∧
    (rows ≠ [] → ∀ page ∈ pages, page ≠ []) ∧ pages.length ≤ max 1 rows.length

end Porthop.Paging
