import Porthop.Git.Diff
import Porthop.Lib.Unified
import Porthop.Git.Matched

/- The patch of selected hunks and lines (`selection` in `diff.rs`).

   It is put together from the lines the agent has just read, never from text of the client: an
   addition that is not selected is left out, and a deletion that is not selected is context. To
   take changes back, additions and deletions change places. -/
namespace Porthop.Git.Cli

/-- The hunks that are selected, and the lines in them where not all are. -/
structure Selected where
  ids : List String
  lines : Option (List String)
  reverse : Bool

namespace Selected

/-- Whether a line's change is one of the selected ones. -/
def wants (c : Selected) (l : Line) : Bool :=
  c.lines.all fun ids => l.id.any fun id => id ∈ ids

end Selected

namespace Origin

def back : Origin → Origin
  | context => context
  | added => deleted
  | deleted => added

end Origin

/-- The side of a line in the patch, if it is there at all. -/
def chosenOrigin (c : Selected) (l : Line) : Option Origin :=
  let origin := if c.reverse then l.origin.back else l.origin
  if c.wants l then some origin
  else
    match origin with
    | .added => none
    | .deleted => some .context
    | .context => some .context

/-- A hunk of the patch, and the lines of the diff it takes changes from. -/
structure ChosenHunk where
  id : String
  seen : List String
  start : Nat
  lines : List (Origin × List UInt8)

namespace ChosenHunk

def oldCount (h : ChosenHunk) : Nat := h.lines.countP fun l => l.1 ≠ .added

def newCount (h : ChosenHunk) : Nat := h.lines.countP fun l => l.1 ≠ .deleted

end ChosenHunk

def chosenLines (c : Selected) (ls : List Line) : List (Origin × List UInt8) :=
  ls.filterMap fun l => (chosenOrigin c l).map fun origin => (origin, l.content)

/-- The lines that are asked for and change something. -/
def seenLines (c : Selected) (ls : List Line) : List String :=
  (ls.filter fun l => c.wants l ∧ l.origin ≠ .context).filterMap Line.id

def chooseHunk (c : Selected) (h : Hunk) : Except Error (Option ChosenHunk) :=
  match h.id with
  | none => .error failure
  | some id =>
    if id ∈ c.ids then
      .ok (some ⟨id, seenLines c h.lines, if c.reverse then h.newStart else h.oldStart,
        chosenLines c h.lines⟩)
    else .ok none

/-- Only a text file that keeps its name is edited in part. -/
def chooseFile (c : Selected) (file : Delta × Patch) : Except Error (List ChosenHunk) :=
  if file.2.binary ∨ file.1.oldPath ≠ file.1.newPath then
    .error (.new "UNSUPPORTED_CAPABILITY" "Partial edits require a text file without a rename.")
  else do
    let hunks ← file.2.hunks.mapM (chooseHunk c)
    .ok (hunks.filterMap id)

/-! ## The text -/

/-- Three octal digits, as Git reads them between quotes. -/
def octalByte (b : UInt8) : List UInt8 :=
  [ascii '\\'] ++ (List.replicate (3 - (Nat.toDigits 8 b.toNat).length) '0' ++
    Nat.toDigits 8 b.toNat).map ascii

def quotePath (start : String) (path : List UInt8) : List UInt8 :=
  asciis "\"" ++ asciis start ++ path.flatMap octalByte ++ asciis "\""

def decimal (n : Nat) : List UInt8 := (Nat.toDigits 10 n).map ascii

def octal (n : Nat) : List UInt8 := (Nat.toDigits 8 n).map ascii

def lineText (l : Origin × List UInt8) : List UInt8 :=
  l.1.byte :: l.2 ++
    if l.2.getLast? = some newline then [] else asciis "\n\\ No newline at end of file\n"

def ChosenHunk.text (h : ChosenHunk) : List UInt8 :=
  asciis "@@ -" ++ decimal h.start ++ asciis "," ++ decimal h.oldCount ++ asciis " +" ++
    decimal (if 0 < h.newCount then max h.start 1 else h.start) ++ asciis "," ++
    decimal h.newCount ++ asciis " @@\n" ++ h.lines.flatMap lineText

/-- The modes of the file before and after the patch; one of zero is that of no file. -/
def chosenModes (c : Selected) (d : Delta) (hunks : List ChosenHunk) : Nat × Nat :=
  let oldMode := if c.reverse then d.newMode else d.oldMode
  let newMode := if c.reverse then d.oldMode else d.newMode
  -- what is left of a file that was deleted keeps its mode
  (oldMode, if newMode = 0 ∧ c.lines.isSome ∧ 0 < (hunks.map ChosenHunk.newCount).sum then oldMode
    else newMode)

def modeText (modes : Nat × Nat) : List UInt8 :=
  if modes.1 = 0 then asciis "new file mode " ++ octal modes.2 ++ asciis "\n"
  else if modes.2 = 0 then asciis "deleted file mode " ++ octal modes.1 ++ asciis "\n"
  else []

def sideText (start : String) (mode : Nat) (path : List UInt8) : List UInt8 :=
  if mode = 0 then asciis "/dev/null" else quotePath start path

def fileText (c : Selected) (d : Delta) (hunks : List ChosenHunk) : List UInt8 :=
  if hunks = [] then []
  else
    let modes := chosenModes c d hunks
    asciis "diff --git " ++ quotePath "a/" d.newPath ++ asciis " " ++ quotePath "b/" d.newPath ++
      asciis "\n" ++ modeText modes ++ asciis "--- " ++ sideText "a/" modes.1 d.newPath ++
      asciis "\n+++ " ++ sideText "b/" modes.2 d.newPath ++ asciis "\n" ++
      hunks.flatMap ChosenHunk.text

/-- The patch of what is selected of a diff that was just read. -/
def selection (c : Selected) (comparison : Except Error (List (Delta × Patch))) :
    Except Error (List UInt8) :=
  if c.ids = [] ∨ 1024 < c.ids.length then .error (.invalid "Select at least one hunk.")
  else do
    let files ← comparison
    if ¬ c.ids.Nodup then .error (.invalid "Duplicate hunk selection.")
    else if c.lines.any fun ids => ids = [] ∨ ¬ ids.Nodup then
      .error (.invalid "Invalid line selection.")
    else do
      let chosen ← files.mapM (chooseFile c)
      let hunks := chosen.flatten
      if (c.ids.any fun id => id ∉ hunks.map ChosenHunk.id) ∨
          c.lines.any fun ids => ids.any fun id => id ∉ hunks.flatMap ChosenHunk.seen then
        .error (.new "STALE_HUNK" "The selected diff lines changed. Reload the diff.")
      else .ok ((files.zip chosen).flatMap fun file => fileText c file.1.1 file.2)

end Porthop.Git.Cli

/- What the patch of a selection says when it is read.

   The patch is read by the same reader as Git's own: it has a section for every file something
   was chosen of, and the section has the chosen hunks with the lines and numbers they were
   given. The lines of a file have no line feed but at their end, so nothing they hold is taken
   for a header. -/
namespace Porthop.Git.Cli

/-- The text of a line of a file: a line feed is only at its end. -/
def LineText (content : List UInt8) : Prop := newline ∉ trimLine content

/-- A line of the patch as Git would print it. -/
def printedLine (l : Origin × List UInt8) : SourceLine where
  origin := l.1
  text := trimLine l.2
  ended := l.2.getLast? = some newline
  bare := false

theorem printedLine_printed {l : Origin × List UInt8} (h : LineText l.2) :
    (printedLine l).Printed := ⟨h, fun hbare => by cases hbare⟩

/-! ## A hunk -/

namespace ChosenHunk

/-- The number a hunk has in the second image. -/
def newStart (h : ChosenHunk) : Nat := if 0 < h.newCount then max h.start 1 else h.start

def range (start count : Nat) : List UInt8 := digits start ++ ascii ',' :: digits count

def header (h : ChosenHunk) : List UInt8 :=
  Splits.terminated space [asciis "@@", ascii '-' :: range h.start h.oldCount,
    ascii '+' :: range h.newStart h.newCount] ++ asciis "@@"

def print (h : ChosenHunk) : List (List UInt8) :=
  h.header :: h.lines.flatMap fun l => (printedLine l).print

/-- The numbers can be read, and the lines are lines of a file. -/
structure Printed (h : ChosenHunk) : Prop where
  lines : ∀ l ∈ h.lines, LineText l.2
  start : h.start ≤ usizeMax
  length : h.lines.length ≤ usizeMax

/-- The hunk as it is read. -/
def read (h : ChosenHunk) : Hunk :=
  ⟨none, h.start, h.oldCount, h.newStart, h.newCount,
    number h.start h.newStart (h.lines.map printedLine)⟩

theorem range_notMem {start count : Nat} {b : UInt8} (h : (Char.ofNat b.toNat).isDigit = false)
    (hb : b ≠ ascii ',') : b ∉ range start count := by
  intro hmem
  rcases List.mem_append.mp hmem with hmem | hmem
  · exact digits_notMem h hmem
  · rcases List.mem_cons.mp hmem with rfl | hmem
    · exact hb rfl
    · exact digits_notMem h hmem

theorem range_read {start count : Nat} (hstart : start ≤ usizeMax) (hcount : count ≤ usizeMax) :
    Cli.range (range start count) = .ok (start, count) := by
  have hcomma : ascii ',' ∉ digits start := digits_notMem (by decide)
  rw [Cli.range, range, Splits.splitOnce_cons hcomma]
  simp only [Option.getD_some, parseU64_digits hstart, parseU64_digits hcount]

theorem counts_le {h : ChosenHunk} (hp : h.Printed) :
    h.oldCount ≤ usizeMax ∧ h.newCount ≤ usizeMax ∧ h.newStart ≤ usizeMax := by
  have hstart := hp.start
  refine ⟨Nat.le_trans List.countP_le_length hp.length,
    Nat.le_trans List.countP_le_length hp.length, ?_⟩
  unfold newStart
  have hone : 1 ≤ usizeMax := by decide
  split <;> omega

theorem hunkHeader_header {h : ChosenHunk} (hp : h.Printed) : hunkHeader (h.header ++ [newline]) =
    .ok ((h.start, h.oldCount), (h.newStart, h.newCount)) := by
  have hplain : ∀ f ∈ [asciis "@@", ascii '-' :: range h.start h.oldCount,
      ascii '+' :: range h.newStart h.newCount], space ∉ f := by
    have hspace : ∀ start count, space ∉ range start count := fun start count =>
      range_notMem (by decide) (by decide)
    have hminus : space ≠ ascii '-' := by decide
    have hplus : space ≠ ascii '+' := by decide
    simp only [List.forall_mem_cons]
    refine ⟨by decide, ?_, ?_, fun f hf => absurd hf List.not_mem_nil⟩
    · simp [hminus, hspace]
    · simp [hplus, hspace]
  obtain ⟨hold, hnew, hstart⟩ := counts_le hp
  rw [hunkHeader, header, List.append_assoc, Splits.splitOn_terminated_append hplain]
  obtain ⟨f, fs, hlast⟩ := List.exists_cons_of_ne_nil
    (List.splitOn_ne_nil space (asciis "@@" ++ [newline]))
  rw [hlast]
  show (do
    let old ← Cli.range (range h.start h.oldCount)
    let new ← Cli.range (range h.newStart h.newCount)
    Except.ok (old, new)) = _
  rw [range_read hp.start hold, range_read hstart hnew]
  rfl

theorem line_header {h : ChosenHunk} (hp : h.Printed) (s : Reading) :
    s.line (h.header ++ [newline]) = .ok { s with
      old := h.start
      new := h.newStart
      hunks := s.hunks ++ [⟨none, h.start, h.oldCount, h.newStart, h.newCount, []⟩] } := by
  have hbinary : isBinary (h.header ++ [newline]) = false := rfl
  have hstart : startsWith (asciis "@@ ") (h.header ++ [newline]) = true := rfl
  unfold Reading.line
  simp only [hbinary, Bool.or_false, hstart, if_true, hunkHeader_header hp]
  rfl

/-- Nothing is skipped. -/
theorem kept_lines (ls : List (Origin × List UInt8)) :
    kept (ls.map printedLine) = ls.map printedLine :=
  List.filter_eq_self.mpr (List.forall_mem_map.mpr fun _ _ => rfl)

theorem foldlM_print {h : ChosenHunk} (hp : h.Printed) (s : Reading) : ∃ old new adds dels,
    (h.print.map (· ++ [newline])).foldlM Reading.line s =
      .ok ⟨s.hunks ++ [h.read], old, new, adds, dels, s.binary⟩ := by
  have hlines : ∀ l ∈ h.lines.map printedLine, l.Printed :=
    List.forall_mem_map.mpr fun l hl => printedLine_printed (hp.lines l hl)
  rw [print, List.map_cons, List.foldlM_cons, line_header hp, ← List.flatMap_map]
  have hread := foldlM_lines (s := { s with
    old := h.start
    new := h.newStart
    hunks := s.hunks ++ [⟨none, h.start, h.oldCount, h.newStart, h.newCount, []⟩] }) hlines rfl
  rw [kept_lines, List.nil_append] at hread
  exact ⟨_, _, _, _, hread⟩

theorem print_printedLine (l : Origin × List UInt8) : (printedLine l).print =
    (l.1.byte :: trimLine l.2) :: if (printedLine l).ended then [] else [noNewline] := rfl

/-- Each line of the text is the header, or is printed for a line of the file. -/
theorem forall_print {p : List UInt8 → Prop} {h : ChosenHunk} (hheader : p h.header)
    (hline : ∀ l ∈ h.lines, p (l.1.byte :: trimLine l.2)) (hmark : p noNewline) :
    ∀ l ∈ h.print, p l := by
  refine List.forall_mem_cons.mpr ⟨hheader, List.forall_mem_flatMap.mpr fun l hl => ?_⟩
  rw [print_printedLine]
  refine List.forall_mem_cons.mpr ⟨hline l hl, ?_⟩
  split
  · exact List.forall_mem_nil _
  · exact List.forall_mem_singleton.mpr hmark

theorem print_notMem {h : ChosenHunk} (hp : h.Printed) : ∀ l ∈ h.print, newline ∉ l := by
  refine forall_print ?_ (fun line hline => ?_) (by decide)
  · have hrange : ∀ start count, newline ∉ range start count := fun start count =>
      range_notMem (by decide) (by decide)
    have hnot : newline ∉ asciis "@@" := by decide
    have hsigns : newline ≠ space ∧ newline ≠ ascii '-' ∧ newline ≠ ascii '+' := by decide
    simp [header, Splits.terminated, hrange, hnot, hsigns]
  · have horigin : newline ≠ line.1.byte := by cases line.1 <;> decide
    have htext : newline ∉ trimLine line.2 := hp.lines line hline
    simp [horigin, htext]

end ChosenHunk

/-! ## A path between quotes -/

/-- What Git reads between quotes, where the only escapes are those of three octal digits. -/
def unquoted : List UInt8 → Option (List UInt8)
  | [] => none
  | b :: bs =>
    if b = ascii '"' then if bs = [] then some [] else none
    else if b = ascii '\\' then
      match bs with
      | x :: y :: z :: rest =>
        (unquoted rest).map ((64 * (x - 48) + 8 * (y - 48) + (z - 48)) :: ·)
      | _ => none
    else (unquoted bs).map (b :: ·)

def unquote : List UInt8 → Option (List UInt8)
  | [] => none
  | b :: bs => if b = ascii '"' then unquoted bs else none

end Porthop.Git.Cli
