import Porthop.Git.Objects
import Porthop.Git.Pages
import Porthop.Git.Status
import Porthop.Lib.Pattern
import Porthop.Ssh.KnownHosts

/- The pages of the history (`history.rs`).

   What Git and the file system answer during a request is an input, and so is the digest. -/
namespace Porthop.Git.Cli

open Tokens (RepoRef SnapshotRef CursorRef Listing Issued)
open MessagePack (utf8 ofUtf8)

/-! ## A commit -/

/-- A commit id a request may name. -/
def validOid (value : String) : Except Error Unit :=
  match oid (utf8 value) with
  | .ok _ => .ok ()
  | .error _ => .error (.invalid "A complete commit ID is required.")

/-- What comes before the last separator and what comes behind it. -/
def rsplit (sep : UInt8) (bytes : List UInt8) : Option (List UInt8 × List UInt8) :=
  (Splits.splitOnce sep bytes.reverse).map fun r => (r.2.reverse, r.1.reverse)

def signature (value : List UInt8) : Except Error Value :=
  match rsplit (ascii '>') value with
  | none => .error failure
  | some (front, _) =>
    match rsplit (ascii '<') front with
    | none => .error failure
    | some (name, email) =>
      let name := if name.getLast? = some space then name.dropLast else name
      .ok (.obj [("name", .str (Utf8.fromUtf8Lossy name)),
        ("email", .str (Utf8.fromUtf8Lossy email))])

/-- `parse::<i64>` -/
def parseI64 (cs : List Char) : Option Int :=
  let (sign, ds) : Int × List Char :=
    match cs with
    | '-' :: ds => (-1, ds)
    | '+' :: ds => (1, ds)
    | ds => (1, ds)
  if ds ≠ [] ∧ ds.all Char.isDigit then
    let n := sign * (Nat.ofDigitChars 10 ds 0 : Int)
    if -2 ^ 63 ≤ n ∧ n < 2 ^ 63 then some n else none
  else none

def digit (b : UInt8) : Int := b.toNat - 48

/-- The minutes of a zone such as `+0530`. -/
def zoneMinutes : List UInt8 → Option Int
  | [sign, h, h', m, m'] =>
    if (sign = ascii '+' ∨ sign = ascii '-') ∧ [h, h', m, m'].all (fun d => 48 ≤ d ∧ d ≤ 57) then
      let minutes := (digit h * 10 + digit h') * 60 + (digit m * 10 + digit m')
      some (if sign = ascii '-' then -minutes else minutes)
    else none
  | _ => none

/-- The time and the zone of a committer. -/
def moment (value : List UInt8) : Except Error (Int × Int) :=
  match rsplit space value with
  | none => .error failure
  | some (front, zone) =>
    match rsplit space front with
    | none => .error failure
    | some (_, time) =>
      match (ofUtf8 time).bind fun s => parseI64 s.toList with
      | none => .error failure
      | some time =>
        match zoneMinutes zone with
        | none => .error failure
        | some offset => .ok (time, offset)

/-- What the lines of a commit have said so far. -/
structure Header where
  parents : List Value := []
  author : Option Value := none
  time : Option (Int × Int) := none

/-- What follows a word and a space at the beginning of a line. -/
def after (word : String) (line : List UInt8) : Option (List UInt8) :=
  if utf8 word <+: line then some (line.drop (utf8 word).length) else none

def Header.line (header : Header) (line : List UInt8) : Except Error Header := do
  let header ← match after "parent " line with
    | some value => (oid value).map fun id => { header with parents := header.parents ++ [id] }
    | none => .ok header
  let header ← match after "author " line with
    | some value => (signature value).map fun author => { header with author := some author }
    | none => .ok header
  match after "committer " line with
    | some value => (moment value).map fun time => { header with time := some time }
    | none => .ok header

/-- The row of a commit. -/
def commitRow (id : String) (raw : List UInt8) (budget : Nat) : Except Error Value :=
  match Pattern.splitOnce [newline, newline] raw with
  | none => .error failure
  | some (lines, message) => do
    let header ← (lines.splitOn newline).foldlM Header.line {}
    let object ← oid (utf8 id)
    match header.author, header.time with
    | some author, some (time, offset) =>
      .ok (.obj [("oid", object), ("parents", .arr header.parents),
        ("message", wirePath (message.take (min message.length budget))),
        ("messageTruncated", .bool (message.length > budget)), ("author", author),
        ("time", .num time), ("offsetMinutes", .num offset)])
    | _, _ => .error failure

/-! ## The commits of a page -/

/-- Read the objects one after another. -/
def readCommits (budget : Nat) : List String → List UInt8 → Except Error (List Value)
  | [], rest => if rest = [] then .ok [] else .error failure
  | id :: ids, rest =>
    match Splits.splitOnce newline rest with
    | none => .error failure
    | some (header, rest) =>
      match ofUtf8 header with
      | none => .error failure
      | some header =>
        match header.toList.splitOn ' ' with
        | [id', kind, size] =>
          if id' ≠ id.toList ∨ kind ≠ "commit".toList then
            .error (.new "NOT_FOUND" "The commit is not available.")
          else
            match parseUsize size with
            | none => .error failure
            | some size =>
              match rest.drop size with
              | [] => .error failure
              | stop :: more =>
                if stop ≠ newline then .error failure
                else do
                  let row ← commitRow id (rest.take size) budget
                  let rows ← readCommits budget ids more
                  .ok (row :: rows)
        | _ => .error (.new "NOT_FOUND" "The commit is not available.")

/-- What Git is asked for the objects. -/
def batch (ids : List String) : List UInt8 :=
  utf8 (String.ofList (List.intercalate ['\n'] (ids.map String.toList) ++ ['\n']))

/-- What Git and the file system answer during a request for a page of the history. -/
structure Answers where
  revision : Except Error (Option (List UInt8))
  unborn : Except Error Bool
  shallow : Except Error (Option (List UInt8))
  list : Nat → Nat → String → Except Error (List UInt8)
  objects : List UInt8 → Except Error (Option (List UInt8))

def commits (git : Answers) (ids : List String) (budget : Nat) : Except Error (List Value) :=
  if ids = [] then .ok []
  else do
    ids.forM validOid
    match ← git.objects (batch ids) with
    | none => .error failure
    | some bytes => readCommits budget ids bytes

/-! ## A page -/

/-- The message budget, where a request names none. -/
def budgetOf (budget : Option Nat) : Nat := budget.getD 16384

end Porthop.Git.Cli
