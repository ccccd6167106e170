import Porthop.Git.Cli
import Porthop.Git.Tokens
import Porthop.Lib.Splits

/- The two readings of `git status`: the counts of a summary from the first format of its
   output (`mod.rs`), and the rows of the changed files from the second (`status.rs`). -/
namespace Porthop.Git.Cli

open Tokens (EntryRef)

def space : UInt8 := 32

def ascii (c : Char) : UInt8 := c.val.toUInt8

def records (bytes : List UInt8) : List (List UInt8) := Splits.records 0 bytes

/-! ## The counts of a summary -/

structure Counts where
  totalEntries : Nat
  staged : Nat
  unstaged : Nat
  untracked : Nat
  conflicted : Nat
  deriving DecidableEq

def conflictCodes : List (List UInt8) :=
  ["DD", "AU", "UD", "UA", "DU", "AA", "UU"].map fun s => s.toList.map ascii

def untrackedCode : List UInt8 := [ascii '?', ascii '?']

def indexLetters : List UInt8 := "MADRTC".toList.map ascii

def worktreeLetters : List UInt8 := "MDRTC".toList.map ascii

def Counts.add (c : Counts) (x y : UInt8) : Counts :=
  let c := { c with totalEntries := c.totalEntries + 1 }
  if conflictCodes.any fun code => code = [x, y] then { c with conflicted := c.conflicted + 1 }
  else if [x, y] = untrackedCode then { c with untracked := c.untracked + 1 }
  else
    { c with
      staged := c.staged + if x ∈ indexLetters then 1 else 0
      unstaged := c.unstaged + if y ∈ worktreeLetters then 1 else 0 }

/-- Whether a second path follows. -/
def moved (x y : UInt8) : Bool :=
  x = ascii 'R' ∨ y = ascii 'R' ∨ x = ascii 'C' ∨ y = ascii 'C'

def summaryFrom : Counts → List (List UInt8) → Except Error Counts
  | c, [] => .ok c
  | c, row :: records =>
    match row with
    | x :: y :: blank :: _ :: _ =>
      if blank ≠ space then .error failure
      else if moved x y then
        match records with
        | [] => .error failure
        | _ :: records => summaryFrom (c.add x y) records
      else summaryFrom (c.add x y) records
    | _ => .error failure

/-- The counts in the output of `git status --porcelain=v1 -z`. -/
def summary (bytes : List UInt8) : Except Error Counts :=
  summaryFrom ⟨0, 0, 0, 0, 0⟩ (records bytes)

/-! ## The rows of the changed files -/

def wirePath (bytes : List UInt8) : Value :=
  .obj [("bytesB64", .str (Tokens.text bytes)), ("display", .str (Utf8.fromUtf8Lossy bytes))]

/-- A numeral in base 8, which a plus sign may stand before. -/
def parseOctal (bs : List UInt8) : Option Nat :=
  let ds := if bs.head? = some (ascii '+') then bs.tail else bs
  if ds ≠ [] ∧ ds.all (fun d => ascii '0' ≤ d ∧ d ≤ ascii '7') then
    let n := ds.foldl (fun n d => n * 8 + (d - ascii '0').toNat) 0
    if n < 2 ^ 32 then some n else none
  else none

def noMode : List UInt8 := List.replicate 6 (ascii '0')

def side (mode id path : List UInt8) : Except Error Value :=
  if mode = noMode then .ok .null
  else
    match parseOctal mode with
    | none => .error failure
    | some n => do
      let id ← oid id
      .ok (.obj [("mode", .num n), ("oid", id), ("path", wirePath path)])

def fields (record : List UInt8) (count : Nat) : Except Error (List (List UInt8)) :=
  let result := Splits.splitn space count record
  if result.length ≠ count then .error failure else .ok result

def flags (x y : UInt8) : UInt32 :=
  let index : UInt32 :=
    if x = ascii 'A' then 1 else if x = ascii 'M' then 2 else if x = ascii 'D' then 4
    else if x = ascii 'R' ∨ x = ascii 'C' then 8 else if x = ascii 'T' then 16 else 0
  let worktree : UInt32 :=
    if y = ascii 'M' then 256 else if y = ascii 'D' then 512 else if y = ascii 'T' then 1024
    else if y = ascii 'R' ∨ y = ascii 'C' then 2048 else 0
  index ||| worktree

structure StatusRow where
  path : List UInt8
  old : Option (List UInt8)
  bits : UInt32
  conflict : Value

namespace StatusRow

/-- The paths of a row, each once and in order. -/
def paths (r : StatusRow) : List (List UInt8) :=
  match r.old with
  | none => [r.path]
  | some old => if old = r.path then [r.path] else if old < r.path then [old, r.path]
    else [r.path, old]

def json (r : StatusRow) : Value :=
  .obj [("entryId", .str (EntryRef.new r.paths).encode), ("path", wirePath r.path),
    ("oldPath", (r.old.map wirePath).getD .null), ("flags", .num r.bits.toNat),
    ("staged", .bool (r.bits &&& 31 ≠ 0)), ("unstaged", .bool (r.bits &&& 3840 ≠ 0)),
    ("untracked", .bool (r.bits &&& 128 ≠ 0)), ("conflicted", .bool (r.bits &&& 32768 ≠ 0)),
    ("conflict", r.conflict)]

end StatusRow

/-- The row of a record, and of the one that follows it where it has a second path. -/
def rowOf (record : List UInt8) (next : Option (List UInt8)) : Except Error StatusRow :=
  match record with
  | [] => .error failure
  | mark :: rest =>
    if mark = ascii '?' then
      -- Git never prints the mark alone
      .ok ⟨rest.drop 1, none, 128, .null⟩
    else if mark = ascii '1' then do
      match ← fields record 9 with
      | [_, [x, y], _, _, _, _, _, _, path] => .ok ⟨path, some path, flags x y, .null⟩
      | _ => .error failure
    else if mark = ascii '2' then do
      match ← fields record 10, next with
      | [_, [x, y], _, _, _, _, _, _, _, path], some old => .ok ⟨path, some old, flags x y, .null⟩
      | _, _ => .error failure
    else if mark = ascii 'u' then do
      match ← fields record 11 with
      | [_, [_, _], _, baseMode, oursMode, theirsMode, _, baseId, oursId, theirsId, path] =>
        let base ← side baseMode baseId path
        let ours ← side oursMode oursId path
        let theirs ← side theirsMode theirsId path
        .ok ⟨path, some path, 32768, .obj [("base", base), ("ours", ours), ("theirs", theirs)]⟩
      | _ => .error failure
    else .error failure

def captureFrom : List (List UInt8) → Except Error (List StatusRow)
  | [] => .ok []
  | record :: records =>
    if record.head? = some (ascii '2') then
      match records with
      | [] => .error failure
      | old :: records => do
        let row ← rowOf record (some old)
        let rows ← captureFrom records
        .ok (row :: rows)
    else do
      let row ← rowOf record none
      let rows ← captureFrom records
      .ok (row :: rows)

def display (r : StatusRow) : String := Utf8.fromUtf8Lossy r.path

/-- The rows in the output of `git status --porcelain=v2 -z`, in the order of what they show. -/
def capture (bytes : List UInt8) : Except Error (List Value) := do
  let rows ← captureFrom (records bytes)
  .ok ((rows.mergeSort fun a b => display a ≤ display b).map StatusRow.json)

/-- Whether a row is in a group of the changed files. -/
def inGroup (group : String) : Value → Bool
  | .obj fs =>
    match Json.field group fs with
    | some (.bool b) => b
    | _ => false
  | _ => false

end Porthop.Git.Cli
