import Porthop.Git.Status

/- The reading of a diff (`diff.rs`): the raw records of the changed files, the patch of each,
   and how the two are put together.

   The digest that names hunks and lines is a parameter. The content of a line, which travels
   as base64 with a text to show, is its bytes here. -/
namespace Porthop.Git.Cli

/-- A text of one-byte characters. -/
def asciis (s : String) : List UInt8 := s.toList.map ascii

def parseU64 (bs : List UInt8) : Option Nat := parseUsize (bs.map fun b => Char.ofNat b.toNat)

/-! ## Raw records -/

structure Delta where
  oldPath : List UInt8
  newPath : List UInt8
  oldOid : Value
  newOid : Value
  oldMode : Nat
  newMode : Nat
  status : String

def Delta.json (d : Delta) : Value :=
  .obj [("oldPath", wirePath d.oldPath), ("newPath", wirePath d.newPath), ("oldOid", d.oldOid),
    ("newOid", d.newOid), ("oldMode", .num d.oldMode), ("newMode", .num d.newMode),
    ("status", .str d.status)]

def optionalOid (bytes : List UInt8) : Except Error Value :=
  if bytes.all (· = ascii '0') then .ok .null else oid bytes

def deltaStatus (code : UInt8) : String :=
  if code = ascii 'A' then "Added" else if code = ascii 'D' then "Deleted"
  else if code = ascii 'R' then "Renamed" else if code = ascii 'C' then "Copied"
  else if code = ascii 'T' then "Typechange" else if code = ascii 'U' then "Conflicted"
  else "Modified"

/-- The fields of a record, and the letter of its status. -/
def deltaFields (header : List UInt8) : Except Error (List (List UInt8) × UInt8) :=
  match header with
  | [] => .error failure
  | colon :: rest =>
    if colon ≠ ascii ':' then .error failure
    else
      match rest.splitOn space with
      | [oldMode, newMode, oldOid, newOid, code :: _] => .ok ([oldMode, newMode, oldOid, newOid], code)
      | _ => .error failure

def deltaRow (fields : List (List UInt8)) (code : UInt8) (old new : List UInt8) :
    Except Error Delta :=
  match fields with
  | [oldMode, newMode, oldOid, newOid] => do
    let oldOid ← optionalOid oldOid
    let newOid ← optionalOid newOid
    match parseOctal oldMode, parseOctal newMode with
    | some oldMode, some newMode =>
      .ok ⟨old, new, oldOid, newOid, oldMode, newMode, deltaStatus code⟩
    | _, _ => .error failure
  | _ => .error failure

def deltasFrom : List (List UInt8) → Except Error (List Delta)
  | [] => .ok []
  | [_] => .error failure
  | header :: old :: parts => do
    let (fields, code) ← deltaFields header
    if code = ascii 'R' ∨ code = ascii 'C' then
      match parts with
      | [] => .error failure
      | new :: parts => do
        let row ← deltaRow fields code old new
        let rows ← deltasFrom parts
        .ok (row :: rows)
    else do
      let row ← deltaRow fields code old old
      let rows ← deltasFrom parts
      .ok (row :: rows)

def deltas (bytes : List UInt8) : Except Error (List Delta) := deltasFrom (records bytes)

/-! ## The patch of a file -/

/-- A start and a number of lines, one if there is no number. -/
def range (value : List UInt8) : Except Error (Nat × Nat) :=
  let (start, count) := (Splits.splitOnce (ascii ',') value).getD (value, [ascii '1'])
  match parseU64 start, parseU64 count with
  | some start, some count => .ok (start, count)
  | _, _ => .error failure

inductive Origin where
  | context
  | added
  | deleted
  deriving DecidableEq

namespace Origin

def byte : Origin → UInt8
  | context => space
  | added => ascii '+'
  | deleted => ascii '-'

def text : Origin → String
  | context => " "
  | added => "+"
  | deleted => "-"

def ofByte (b : UInt8) : Option Origin :=
  if b = space then some context else if b = ascii '+' then some added
  else if b = ascii '-' then some deleted else none

end Origin

structure Line where
  id : Option String
  origin : Origin
  oldLine : Option Nat
  newLine : Option Nat
  content : List UInt8

structure Hunk where
  id : Option String
  oldStart : Nat
  oldLines : Nat
  newStart : Nat
  newLines : Nat
  lines : List Line

structure Patch where
  hunks : List Hunk
  binary : Bool
  additions : Nat
  deletions : Nat

def optionalNum (n : Option Nat) : Value := (n.map fun n => Json.num (n : Int)).getD .null

def optionalStr (s : Option String) : Value := (s.map Json.str).getD .null

def Line.json (l : Line) : Value :=
  .obj [("id", optionalStr l.id), ("origin", .str l.origin.text), ("oldLine", optionalNum l.oldLine),
    ("newLine", optionalNum l.newLine), ("content", wirePath l.content)]

def Hunk.json (h : Hunk) : Value :=
  .obj [("id", optionalStr h.id), ("oldStart", .num h.oldStart), ("oldLines", .num h.oldLines),
    ("newStart", .num h.newStart), ("newLines", .num h.newLines),
    ("lines", .arr (h.lines.map Line.json))]

/-- What is read of a patch so far: the numbers of the next lines, and the last hunk is the one
    that goes on. -/
structure Reading where
  hunks : List Hunk
  old : Nat
  new : Nat
  adds : Nat
  dels : Nat
  binary : Bool

def startsWith (start line : List UInt8) : Bool := start.isPrefixOf line

def stripByte (b : UInt8) : List UInt8 → Except Error (List UInt8)
  | [] => .error failure
  | c :: rest => if c = b then .ok rest else .error failure

/-- The two ranges of a line that begins a hunk. -/
def hunkHeader (line : List UInt8) : Except Error ((Nat × Nat) × (Nat × Nat)) :=
  match line.splitOn space with
  | _ :: old :: new :: _ :: _ => do
    let old ← range (← stripByte (ascii '-') old)
    let new ← range (← stripByte (ascii '+') new)
    .ok (old, new)
  | _ => .error failure

/-- The last line loses its end. -/
def Hunk.endless (h : Hunk) : Hunk :=
  match h.lines.getLast? with
  | none => h
  | some l => { h with lines := h.lines.dropLast ++ [{ l with content := trimLine l.content }] }

def Hunk.push (h : Hunk) (l : Line) : Hunk := { h with lines := h.lines ++ [l] }

def isBinary (line : List UInt8) : Bool :=
  startsWith (asciis "Binary files ") line || startsWith (asciis "GIT binary patch") line

def Reading.line (s : Reading) (line : List UInt8) : Except Error Reading :=
  let s := { s with binary := s.binary || isBinary line }
  if startsWith (asciis "@@ ") line then do
    let ((oldStart, oldLines), (newStart, newLines)) ← hunkHeader line
    .ok { s with
      old := oldStart
      new := newStart
      hunks := s.hunks ++ [⟨none, oldStart, oldLines, newStart, newLines, []⟩] }
  else
    match s.hunks.getLast?, line with
    | some hunk, mark :: rest =>
      if mark = ascii '\\' then .ok { s with hunks := s.hunks.dropLast ++ [hunk.endless] }
      else
        match Origin.ofByte mark with
        | none => .ok s
        | some origin =>
          .ok { s with
            old := s.old + if origin = .added then 0 else 1
            new := s.new + if origin = .deleted then 0 else 1
            adds := s.adds + if origin = .added then 1 else 0
            dels := s.dels + if origin = .deleted then 1 else 0
            hunks := s.hunks.dropLast ++ [hunk.push ⟨none, origin,
              if origin = .added then none else some s.old,
              if origin = .deleted then none else some s.new, rest⟩] }
    | _, _ => .ok s

section
variable (hash : Value → String)

/-- A changed line is named by its hunk and its place in it. -/
def Line.identify (hunk : String) (ordinal : Nat) (l : Line) : Line :=
  if l.origin = .context then l
  else { l with id := some (hash (.arr [.str hunk, .num ordinal, l.json])) }

def Hunk.identify (file : Value) (h : Hunk) : Hunk :=
  let id := hash (.arr [file, h.json])
  { h with id := some id, lines := h.lines.mapIdx (Line.identify hash id) }

def patch (file : Value) (bytes : List UInt8) : Except Error Patch := do
  let s ← (Splits.splitInclusive newline bytes).foldlM Reading.line ⟨[], 0, 0, 0, 0, false⟩
  .ok ⟨s.hunks.map (Hunk.identify hash file), s.binary, s.adds, s.dels⟩

/-! ## Files -/

/-- The sections of a diff begin with a line of their own; what comes before the first one is
    left out. -/
def sectionStep (s : List (List UInt8) × Option (List UInt8)) (line : List UInt8) :
    List (List UInt8) × Option (List UInt8) :=
  if startsWith (asciis "diff --git ") line then (s.1 ++ s.2.toList, some line)
  else (s.1, s.2.map (· ++ line))

def sections (bytes : List UInt8) : List (List UInt8) :=
  let (done, last) := (Splits.splitInclusive newline bytes).foldl sectionStep ([], none)
  done ++ last.toList

/-- The changed files and their patches, from the raw records and the patches Git prints. -/
def read (raw patches : List UInt8) (context : Nat) : Except Error (List (Delta × Patch)) :=
  if context > 100 then .error (.invalid "contextLines exceeds 100.")
  else do
    let files ← deltas raw
    if files.isEmpty then .ok []
    else
      let sections := sections patches
      if sections.length ≠ files.length then .error failure
      else
        (files.zip sections).mapM fun (file, bytes) => do
          let p ← patch hash file.json bytes
          .ok (file, p)

end

end Porthop.Git.Cli
