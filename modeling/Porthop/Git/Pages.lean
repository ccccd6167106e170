import Porthop.Git.Issued
import Porthop.Git.Message
import Porthop.Lib.Paging

/- The pages of a listing (`pages.rs`). -/
namespace Porthop.Git.Cli

open Tokens (RepoRef SnapshotRef CursorRef Listing Issued)

/-- What the rows of a page may take, and a row alone. -/
def half : Nat := Wire.maxFrame / 2

/-- The rows that fit, after some bytes. -/
def fit (message : String) : Nat → List Value → Except Error (List Value)
  | _, [] => .ok []
  | bytes, row :: rows =>
    if row.size > half then .error (.new "LIMIT_EXCEEDED" message)
    else if bytes + row.size > half then .ok []
    else (fit message (bytes + row.size) rows).map fun result => row :: result

/-- Where a page of the snapshot starts. -/
def pageOffset (snapshot : SnapshotRef) : Option String → Except Error Nat
  | none => .ok 0
  | some cursor => do
    let c ← CursorRef.decode cursor
    if c.s.r ≠ snapshot.r ∨ c.s.q ≠ snapshot.q ∨ c.s.p.isSome ∨ c.k.isSome then
      .error (.invalid "Cursor does not match this query.")
    else if c.s.f ≠ snapshot.f then
      .error (.new "SNAPSHOT_EXPIRED" "The listing changed. Restart from the first page.")
    else .ok c.o.toNat

/-- The cursor for what is left from a position on. -/
def nextCursor (snapshot : SnapshotRef) (stop : Nat) (more : Bool) : Value :=
  if more then .str (⟨snapshot, UInt64.ofNat stop, none⟩ : CursorRef).encode else .null

def pageOf (snapshot : SnapshotRef) (entries : List Value) (next metadata : Value) : Value :=
  .obj [("snapshot", .str snapshot.encode), ("entries", .arr entries), ("nextCursor", next),
    ("metadata", metadata)]

def page (repo : RepoRef) (query fingerprint : String) (rows : List Value) (count : Nat)
    (cursor : Option String) (metadata : Value) : Except Error Value :=
  if ¬ (1 ≤ count ∧ count ≤ 200) then .error (.invalid "pageSize must be between 1 and 200.")
  else do
    let snapshot : SnapshotRef := ⟨repo, query, fingerprint, none⟩
    let offset ← pageOffset snapshot cursor
    if offset > rows.length then .error (.invalid "Cursor is past the end of the listing.")
    else
      let result ← fit "A listing row exceeds the response limit." 0 ((rows.drop offset).take count)
      let stop := offset + result.length
      .ok (pageOf snapshot result (nextCursor snapshot stop (stop < rows.length)) metadata)

section
variable {l : Listing} {rows : List Value}

/-- What is read page by page: the sizes asked for are from 1 to 200. -/
def Sized (_ : Nat) (count : Nat) : Prop := 1 ≤ count ∧ count ≤ 200

theorem page_ok {repo : RepoRef} {query fingerprint : String} {count n : Nat}
    {cursor : Option String} {metadata : Value} {result : List Value}
    (hcount : 1 ≤ count ∧ count ≤ 200)
    (hoffset : pageOffset ⟨repo, query, fingerprint, none⟩ cursor = .ok n) (hn : n ≤ rows.length)
    (hfit : fit "A listing row exceeds the response limit." 0 ((rows.drop n).take count) =
      .ok result) :
    page repo query fingerprint rows count cursor metadata =
      .ok (pageOf ⟨repo, query, fingerprint, none⟩ result (nextCursor
        ⟨repo, query, fingerprint, none⟩ (n + result.length) (n + result.length < rows.length))
          metadata) := by
  unfold page
  rw [if_neg (fun hnot => hnot hcount)]
  show (pageOffset _ cursor).bind _ = _
  rw [hoffset]
  show (if n > rows.length then _ else _) = _
  rw [if_neg (Nat.not_lt.mpr hn)]
  show (fit _ 0 _).bind _ = _
  rw [hfit]
  rfl

end

end Porthop.Git.Cli
