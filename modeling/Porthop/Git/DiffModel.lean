import Porthop.Git.DiffRenderer
import Porthop.Lib.Distinct
import Porthop.Lib.Lines

/- The documents a diff is laid out as (`diffModel.ts`).

   Every line of a document is one of the hunk lines, with its identifiers; what is decided here
   is where it is on the screen. A document is a text, which the editor splits into lines by
   itself, so a line and its text are matched by their number only. -/
namespace Porthop.Git.DiffModel

open Porthop.Git.DiffRenderer (DiffLine DiffHunk)

structure Span where
  oldStart : Nat
  oldLines : Nat
  newStart : Nat
  newLines : Nat
  deriving DecidableEq

abbrev AgentLine := DiffLine

abbrev AgentHunk := DiffHunk Span

/-- Of a file, its hunks are laid out. -/
structure DiffFile where
  hunks : List AgentHunk

inductive LineKind where
  | add | del | ctx | meta'
  deriving DecidableEq

/-- An identifier that is there; an empty text counts as none. -/
def given (id : Option String) : Bool := id.any fun s => s ≠ ""

/-- A line of a document. Only a line with an identifier is selectable. -/
structure ModelLine where
  kind : LineKind
  mark : String
  oldLine : Option Nat
  newLine : Option Nat
  lineId : Option String
  hunkId : Option String
  hunkIndex : Nat
  selectable : Bool
  run : Option Nat
  text : String
  identified : selectable = true → lineId.isSome = true
  deriving DecidableEq

structure ModelHunk where
  index : Nat
  id : Option String
  header : String
  oldStart : Nat
  oldLines : Nat
  newStart : Nat
  newLines : Nat
  deriving DecidableEq

inductive BlockPart where
  | header (hunk : Nat)
  | spacer (rows : Nat)
  deriving DecidableEq

/-- A block above a line of the document, counted from one. -/
structure Block where
  beforeLine : Nat
  parts : List BlockPart
  deriving DecidableEq

/-- Consecutive selectable lines, counted from one. -/
structure Run where
  lineIds : List String
  first : Nat
  last : Nat
  deriving DecidableEq

inductive SideKind where
  | unified | old | new
  deriving DecidableEq

structure SideModel where
  side : SideKind
  lines : List ModelLine
  hunks : List ModelHunk
  blocks : List Block
  runs : List Run
  doc : String
  deriving DecidableEq

def minus : String := String.ofList [Char.ofNat 0x2212]

def hunkHeader (hunk : AgentHunk) : String :=
  "@@ " ++ minus ++ toString hunk.span.oldStart ++ "," ++ toString hunk.span.oldLines ++ " +" ++
    toString hunk.span.newStart ++ "," ++ toString hunk.span.newLines ++ " @@"

def kindOf (origin : String) : LineKind :=
  if origin = "+" then .add
  else if origin = "-" then .del
  else if origin = " " ∨ origin = "" then .ctx
  else .meta'

/-- The sides of a split view a line is on. -/
structure Sides where
  old : Bool
  new : Bool
  deriving DecidableEq

def sidesOf (origin : String) : Sides :=
  if origin = "+" ∨ origin = ">" then ⟨false, true⟩
  else if origin = "-" ∨ origin = "<" then ⟨true, false⟩
  else ⟨true, true⟩

/-! ## The text of a line -/

def stripEnd (text : List Char) : List Char :=
  match text.reverse with
  | '\n' :: '\r' :: rest => rest.reverse
  | '\n' :: rest => rest.reverse
  | _ => text

def stripStart : List Char → List Char
  | '\r' :: '\n' :: rest => rest
  | '\n' :: rest => rest
  | text => text

/-- Returns and line feeds in a row become one blank; `inside` is whether one was just written. -/
def squeeze (inside : Bool) : List Char → List Char
  | [] => []
  | c :: cs =>
    if c = '\r' ∨ c = '\n' then (if inside then squeeze true cs else ' ' :: squeeze true cs)
    else c :: squeeze false cs

def symbol : Char := Char.ofNat 0x2424

/-- A line feed within a line, with the return before it, becomes a symbol. -/
def replaceFeeds : List Char → List Char
  | [] => []
  | c :: cs =>
    if c = '\n' then symbol :: replaceFeeds cs
    else if c = '\r' then
      match cs with
      | '\n' :: cs => symbol :: replaceFeeds cs
      | cs => c :: replaceFeeds cs
    else c :: replaceFeeds cs

def lineText (line : AgentLine) : List Char :=
  let text := stripEnd line.content.display.toList
  if kindOf line.origin = .meta' then squeeze false (stripStart text) else replaceFeeds text

def markOf : LineKind → String
  | .add => "+"
  | .del => "-"
  | .ctx => " "
  | .meta' => ""

theorem isSome_of_given {id : Option String} (h : given id = true) : id.isSome = true := by
  cases id with
  | none => exact absurd h (by decide)
  | some s => rfl

def modelLine (line : AgentLine) (hunk : AgentHunk) (hunkIndex : Nat) (selectable : Bool) :
    ModelLine where
  kind := kindOf line.origin
  mark := markOf (kindOf line.origin)
  oldLine := line.oldLine
  newLine := line.newLine
  lineId := line.id
  hunkId := hunk.id
  hunkIndex := hunkIndex
  selectable := selectable && given line.id && given hunk.id
  run := none
  text := String.ofList (lineText line)
  identified h := isSome_of_given (Bool.and_eq_true_iff.mp (Bool.and_eq_true_iff.mp h).1).2

/-- The lines so far, the runs before the current one, and that one; it is the last of them. -/
structure Grouping where
  lines : List ModelLine
  runs : List Run
  current : Option Run

def Grouping.all (g : Grouping) : List Run := g.runs ++ g.current.toList

/-- Whether the line goes on with the current run. -/
def Grouping.goesOn (g : Grouping) (line : ModelLine) : Bool :=
  g.current.isSome && g.lines.getLast?.map ModelLine.hunkIndex = some line.hunkIndex

/-- The current run of a selectable line, before the line is put in. -/
def Grouping.place (g : Grouping) (line : ModelLine) : List Run × Run :=
  match g.current with
  | some run =>
    if g.goesOn line then (g.runs, run)
    else (g.all, ⟨[], g.lines.length + 1, g.lines.length + 1⟩)
  | none => (g.all, ⟨[], g.lines.length + 1, g.lines.length + 1⟩)

def Grouping.add (g : Grouping) (line : ModelLine) : Grouping :=
  if h : line.selectable = true then
    let (runs, run) := g.place line
    { lines := g.lines ++ [{ line with run := some runs.length }]
      runs := runs
      current := some
        { run with
          lineIds := run.lineIds ++ [line.lineId.get (line.identified h)]
          last := g.lines.length + 1 } }
  else { lines := g.lines ++ [line], runs := g.all, current := none }

/-- Groups consecutive selectable lines of one hunk into runs. -/
def withRuns (lines : List ModelLine) : Grouping := lines.foldl Grouping.add ⟨[], [], none⟩

def docOf (lines : List ModelLine) : String :=
  String.ofList (Lines.joined (lines.map fun line => line.text.toList))

def side (kind : SideKind) (lines : List ModelLine) (hunks : List ModelHunk)
    (blocks : List Block) : SideModel where
  side := kind
  lines := (withRuns lines).lines
  hunks := hunks
  blocks := blocks
  runs := (withRuns lines).all
  doc := docOf lines

/-! ## The unified document -/

/-- A line with its hunk and the number of that. -/
structure Placed where
  hunkIndex : Nat
  hunk : AgentHunk
  line : AgentLine

def Placed.model (selectable : Bool) (p : Placed) : ModelLine :=
  modelLine p.line p.hunk p.hunkIndex selectable

/-- The lines of the hunks, in order. -/
def DiffFile.lines (file : DiffFile) : List Placed :=
  file.hunks.zipIdx.flatMap fun (hunk, index) => hunk.lines.map fun line => ⟨index, hunk, line⟩

inductive Row where
  | header (hunk : Nat)
  | pair (old new : Option Placed)

/-- The n-th removed line is beside the n-th added one. -/
def pairRows (removed added : List Placed) : List Row :=
  (List.range (max removed.length added.length)).map fun n => .pair removed[n]? added[n]?

/-- The rows of a hunk. The inner loop collects what is removed and added up to the next line
that is on both sides. -/
def hunkRows : List Placed → List Placed → List Placed → List Row
  | removed, added, [] => pairRows removed added
  | removed, added, p :: rest =>
    let on := sidesOf p.line.origin
    if on.old && on.new then
      pairRows removed added ++ .pair (some p) (some p) :: hunkRows [] [] rest
    else if on.old then hunkRows (removed ++ [p]) added rest
    else hunkRows removed (added ++ [p]) rest

structure Column where
  lines : List ModelLine
  blocks : List Block
  pending : List BlockPart

def Column.flush (s : Column) : Column :=
  if s.pending = [] then s
  else { s with blocks := s.blocks ++ [⟨s.lines.length + 1, s.pending⟩], pending := [] }

/-- One row more to leave free. -/
def space (pending : List BlockPart) : List BlockPart :=
  match pending.getLast? with
  | some (.spacer rows) => pending.dropLast ++ [.spacer (rows + 1)]
  | _ => pending ++ [.spacer 1]

def Row.old : Row → Option Placed
  | .header _ => none
  | .pair old _ => old

def Row.new : Row → Option Placed
  | .header _ => none
  | .pair _ new => new

def Column.add (which : Row → Option Placed) (selectable : Bool) (s : Column) (row : Row) : Column :=
  match row with
  | .header hunk => { s with pending := s.pending ++ [.header hunk] }
  | .pair _ _ =>
    match which row with
    | none => { s with pending := space s.pending }
    | some p => { s.flush with lines := s.flush.lines ++ [p.model selectable] }

def column (rows : List Row) (which : Row → Option Placed) (selectable : Bool) : Column :=
  rows.foldl (Column.add which selectable) ⟨[], [], []⟩

def BlockPart.rows : BlockPart → Nat
  | .header _ => 1
  | .spacer rows => rows

def Block.rows (block : Block) : Nat := (block.parts.map BlockPart.rows).sum

/-- The hunk an identifier belongs to; the last line that has it decides. -/
def hunkOf (file : DiffFile) : List (String × String) :=
  file.hunks.flatMap fun hunk => hunk.lines.filterMap fun line =>
    if given hunk.id && given line.id then some (line.id.getD "", hunk.id.getD "") else none

structure Payload where
  hunks : List String
  lines : List String
  deriving DecidableEq

end Porthop.Git.DiffModel
