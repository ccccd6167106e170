import Porthop.Git.Diff

/- What is read of the patch of one file.

   A section is abstract here: lines before the first hunk, and hunks of lines, each with its
   side and its bytes, and for the last line of a file whether it has an end. Git prints an
   empty context line as a blank and a line feed, or, where it is told to, as the line feed
   alone. The reader skips that one: it is the only line it loses. -/
namespace Porthop.Git.Cli

/-! ## What Git prints -/

structure SourceLine where
  origin : Origin
  text : List UInt8
  /-- The line has its line feed. -/
  ended : Bool
  /-- The line is printed as a line feed alone. -/
  bare : Bool

def SourceLine.content (l : SourceLine) : List UInt8 := l.text ++ if l.ended then [newline] else []

structure SourceLine.Printed (l : SourceLine) : Prop where
  text : newline ∉ l.text
  bare : l.bare = true → l.origin = .context ∧ l.text = [] ∧ l.ended = true

structure SourceHunk where
  oldStart : Nat
  newStart : Nat
  /-- What stands behind the ranges. -/
  heading : List UInt8
  lines : List SourceLine

namespace SourceHunk

def oldLines (h : SourceHunk) : Nat := h.lines.countP fun l => l.origin ≠ .added

def newLines (h : SourceHunk) : Nat := h.lines.countP fun l => l.origin ≠ .deleted

structure Printed (h : SourceHunk) : Prop where
  heading : newline ∉ h.heading
  lines : ∀ l ∈ h.lines, l.Printed
  oldStart : h.oldStart ≤ usizeMax
  newStart : h.newStart ≤ usizeMax
  length : h.lines.length ≤ usizeMax

end SourceHunk

def noNewline : List UInt8 := asciis "\\ No newline at end of file"

/-- The lines that are printed for a line. -/
def SourceLine.print (l : SourceLine) : List (List UInt8) :=
  if l.bare then [[]]
  else (l.origin.byte :: l.text) :: if l.ended then [] else [noNewline]

def digits (n : Nat) : List UInt8 := (Nat.toDigits 10 n).map ascii

def rangeText (start count : Nat) : List UInt8 :=
  digits start ++ if count = 1 then [] else ascii ',' :: digits count

def SourceHunk.header (h : SourceHunk) : List UInt8 :=
  Splits.terminated space [asciis "@@", ascii '-' :: rangeText h.oldStart h.oldLines,
    ascii '+' :: rangeText h.newStart h.newLines] ++ (asciis "@@" ++ h.heading)

def SourceHunk.print (h : SourceHunk) : List (List UInt8) :=
  h.header :: h.lines.flatMap SourceLine.print

/-- The section of a file. -/
structure Section where
  head : List (List UInt8)
  hunks : List SourceHunk

namespace Section

structure Printed (s : Section) : Prop where
  head : ∀ l ∈ s.head, newline ∉ l ∧ startsWith (asciis "@@ ") (l ++ [newline]) = false
  hunks : ∀ h ∈ s.hunks, h.Printed

def lines (s : Section) : List (List UInt8) := s.head ++ s.hunks.flatMap SourceHunk.print

def print (s : Section) : List UInt8 := Splits.terminated newline s.lines

/-- A line before the hunks says that the file is binary. -/
def binary (s : Section) : Bool := s.head.any fun l => isBinary (l ++ [newline])

end Section

/-! ## What is read -/

/-- The lines with their numbers. -/
def number : Nat → Nat → List SourceLine → List Line
  | _, _, [] => []
  | old, new, l :: ls =>
    ⟨none, l.origin, if l.origin = .added then none else some old,
        if l.origin = .deleted then none else some new, l.content⟩ ::
      number (old + if l.origin = .added then 0 else 1) (new + if l.origin = .deleted then 0 else 1) ls

/-- The lines that are not printed as a line feed alone. -/
def kept (ls : List SourceLine) : List SourceLine := ls.filter fun l => !l.bare

def SourceHunk.read (h : SourceHunk) : Hunk :=
  ⟨none, h.oldStart, h.oldLines, h.newStart, h.newLines, number h.oldStart h.newStart (kept h.lines)⟩

/-! ## The range of a hunk -/

theorem ofNat_ascii {c : Char} (h : c.isDigit = true) : Char.ofNat (ascii c).toNat = c := by
  have hlt : c.toNat < 256 := by
    rw [Char.isDigit, Bool.and_eq_true, decide_eq_true_eq, decide_eq_true_eq] at h
    have hle := UInt32.le_iff_toNat_le.mp h.2
    have h9 : '9'.val.toNat = 57 := rfl
    show c.val.toNat < 256
    omega
  have hbyte : (ascii c).toNat = c.toNat := by
    rw [ascii, UInt32.toNat_toUInt8]
    exact Nat.mod_eq_of_lt hlt
  rw [hbyte, Char.ofNat_toNat]

theorem isDigit_toDigits {n : Nat} {c : Char} (h : c ∈ Nat.toDigits 10 n) : c.isDigit = true :=
  Nat.isDigit_of_mem_toDigits (by decide) (by decide) h

theorem parseU64_digits {n : Nat} (h : n ≤ usizeMax) : parseU64 (digits n) = some n := by
  have hchars : (digits n).map (fun b => Char.ofNat b.toNat) = Nat.toDigits 10 n := by
    rw [digits, List.map_map]
    calc (Nat.toDigits 10 n).map ((fun b => Char.ofNat b.toNat) ∘ ascii)
        = (Nat.toDigits 10 n).map id :=
          List.map_congr_left fun c hc => ofNat_ascii (isDigit_toDigits hc)
      _ = Nat.toDigits 10 n := List.map_id _
  rw [parseU64, hchars, parseUsize_toDigits h]

/-- A digit is none of the signs around the numbers. -/
theorem digits_notMem {n : Nat} {b : UInt8} (h : (Char.ofNat b.toNat).isDigit = false) :
    b ∉ digits n := by
  intro hmem
  obtain ⟨c, hc, rfl⟩ := List.mem_map.mp hmem
  rw [ofNat_ascii (isDigit_toDigits hc), isDigit_toDigits hc] at h
  cases h

theorem range_text {start count : Nat} (hstart : start ≤ usizeMax) (hcount : count ≤ usizeMax) :
    range (rangeText start count) = .ok (start, count) := by
  have hcomma : ∀ n, ascii ',' ∉ digits n := fun n => digits_notMem (by decide)
  rw [range, rangeText]
  by_cases hone : count = 1
  · subst hone
    rw [if_pos rfl, List.append_nil, Splits.splitOnce_none (hcomma start)]
    simp only [Option.getD_none, parseU64_digits hstart]
    rfl
  · rw [if_neg hone, Splits.splitOnce_cons (hcomma start)]
    simp only [Option.getD_some, parseU64_digits hstart, parseU64_digits hcount]

theorem rangeText_notMem {start count : Nat} {b : UInt8}
    (h : (Char.ofNat b.toNat).isDigit = false) (hb : b ≠ ascii ',') :
    b ∉ rangeText start count := by
  rw [rangeText]
  split
  · rw [List.append_nil]
    exact digits_notMem h
  · intro hmem
    rcases List.mem_append.mp hmem with hmem | hmem
    · exact digits_notMem h hmem
    · rcases List.mem_cons.mp hmem with rfl | hmem
      · exact hb rfl
      · exact digits_notMem h hmem

namespace SourceHunk

variable {h : SourceHunk}

theorem oldLines_le (hp : h.Printed) : h.oldLines ≤ usizeMax :=
  Nat.le_trans List.countP_le_length hp.length

theorem newLines_le (hp : h.Printed) : h.newLines ≤ usizeMax :=
  Nat.le_trans List.countP_le_length hp.length

theorem hunkHeader_header (hp : h.Printed) (rest : List UInt8) : hunkHeader (h.header ++ rest) =
    .ok ((h.oldStart, h.oldLines), (h.newStart, h.newLines)) := by
  have hplain : ∀ f ∈ [asciis "@@", ascii '-' :: rangeText h.oldStart h.oldLines,
      ascii '+' :: rangeText h.newStart h.newLines], space ∉ f := by
    have hspace : ∀ start count, space ∉ rangeText start count := fun start count =>
      rangeText_notMem (by decide) (by decide)
    have hminus : space ≠ ascii '-' := by decide
    have hplus : space ≠ ascii '+' := by decide
    simp only [List.forall_mem_cons]
    refine ⟨by decide, ?_, ?_, fun f hf => absurd hf List.not_mem_nil⟩
    · simp [hminus, hspace]
    · simp [hplus, hspace]
  rw [hunkHeader, header, List.append_assoc, Splits.splitOn_terminated_append hplain]
  obtain ⟨f, fs, hlast⟩ := List.exists_cons_of_ne_nil
    (List.splitOn_ne_nil space (asciis "@@" ++ h.heading ++ rest))
  rw [hlast]
  show (do
    let old ← range (rangeText h.oldStart h.oldLines)
    let new ← range (rangeText h.newStart h.newLines)
    Except.ok (old, new)) = _
  rw [range_text hp.oldStart (oldLines_le hp), range_text hp.newStart (newLines_le hp)]
  rfl

end SourceHunk

/-! ## The lines of a hunk -/

theorem startsWith_cons {a b : UInt8} {as bs : List UInt8} (h : a ≠ b) :
    startsWith (a :: as) (b :: bs) = false := by
  show (a == b && as.isPrefixOf bs) = false
  rw [beq_false_of_ne h, Bool.false_and]

/-- A line of a hunk is no word about the file, and begins no hunk. -/
theorem hunkLine_plain {b : UInt8} (h : b = newline ∨ b = ascii '\\' ∨ ∃ o : Origin, b = o.byte)
    (bs : List UInt8) :
    isBinary (b :: bs) = false ∧ startsWith (asciis "@@ ") (b :: bs) = false := by
  have hne : ascii 'B' ≠ b ∧ ascii 'G' ≠ b ∧ ascii '@' ≠ b := by
    rcases h with rfl | rfl | ⟨o, rfl⟩
    · decide
    · decide
    · cases o <;> decide
  have hbinary : startsWith (asciis "Binary files ") (b :: bs) = false := startsWith_cons hne.1
  have hgit : startsWith (asciis "GIT binary patch") (b :: bs) = false := startsWith_cons hne.2.1
  refine ⟨?_, startsWith_cons hne.2.2⟩
  rw [isBinary, hbinary, hgit]
  rfl

theorem ofByte_byte (o : Origin) : Origin.ofByte o.byte = some o := by
  cases o <;> rfl

theorem byte_ne (o : Origin) : o.byte ≠ ascii '\\' := by
  cases o <;> decide

variable {s : Reading} {hs : List Hunk} {h : Hunk}

/-- A line of the file is added to the last hunk. -/
theorem line_origin (hlast : s.hunks = hs ++ [h]) (o : Origin) (rest : List UInt8) :
    s.line (o.byte :: rest) = .ok { s with
      old := s.old + if o = .added then 0 else 1
      new := s.new + if o = .deleted then 0 else 1
      adds := s.adds + if o = .added then 1 else 0
      dels := s.dels + if o = .deleted then 1 else 0
      hunks := hs ++ [h.push ⟨none, o, if o = .added then none else some s.old,
        if o = .deleted then none else some s.new, rest⟩] } := by
  obtain ⟨hbinary, hstart⟩ := hunkLine_plain (.inr (.inr ⟨o, rfl⟩)) rest
  unfold Reading.line
  simp only [hbinary, Bool.or_false, hstart, Bool.false_eq_true, if_false, hlast,
    List.getLast?_concat, byte_ne o, ofByte_byte, List.dropLast_concat]

/-- The mark takes the end of the line before it. -/
theorem line_noNewline (hlast : s.hunks = hs ++ [h]) (rest : List UInt8) :
    s.line (ascii '\\' :: rest) = .ok { s with hunks := hs ++ [h.endless] } := by
  obtain ⟨hbinary, hstart⟩ := hunkLine_plain (.inr (.inl rfl)) rest
  unfold Reading.line
  simp only [hbinary, Bool.or_false, hstart, Bool.false_eq_true, if_false, hlast,
    List.getLast?_concat, List.dropLast_concat, if_true]

/-- A line feed alone is skipped. -/
theorem line_bare (hlast : s.hunks = hs ++ [h]) : s.line [newline] = .ok s := by
  obtain ⟨hbinary, hstart⟩ := hunkLine_plain (.inl rfl) []
  have hmark : ¬ newline = ascii '\\' := by decide
  have horigin : Origin.ofByte newline = none := by decide
  unfold Reading.line
  simp only [hbinary, Bool.or_false, hstart, Bool.false_eq_true, if_false, hlast,
    List.getLast?_concat, hmark, horigin]
  rw [← hlast]

theorem endless_push (l : Line) : (h.push l).endless =
    h.push { l with content := trimLine l.content } := by
  rw [Hunk.endless, Hunk.push]
  simp only [List.getLast?_concat, List.dropLast_concat]
  rfl

/-- What a line does that is not skipped. -/
def Reading.take (s : Reading) (hs : List Hunk) (h : Hunk) (l : SourceLine) : Reading :=
  { s with
    old := s.old + if l.origin = .added then 0 else 1
    new := s.new + if l.origin = .deleted then 0 else 1
    adds := s.adds + if l.origin = .added then 1 else 0
    dels := s.dels + if l.origin = .deleted then 1 else 0
    hunks := hs ++ [h.push ⟨none, l.origin, if l.origin = .added then none else some s.old,
      if l.origin = .deleted then none else some s.new, l.content⟩] }

theorem foldlM_print (hlast : s.hunks = hs ++ [h]) {l : SourceLine} (hl : l.bare = false) :
    (l.print.map (· ++ [newline])).foldlM Reading.line s = .ok (s.take hs h l) := by
  cases hended : l.ended with
  | true =>
    have hprint : l.print.map (· ++ [newline]) = [l.origin.byte :: (l.text ++ [newline])] := by
      rw [SourceLine.print, hl, hended]
      rfl
    rw [hprint, List.foldlM_cons, line_origin hlast, Reading.take, SourceLine.content, hended]
    rfl
  | false =>
    have hprint : l.print.map (· ++ [newline]) = [l.origin.byte :: (l.text ++ [newline]),
        ascii '\\' :: (asciis " No newline at end of file" ++ [newline])] := by
      rw [SourceLine.print, hl, hended]
      rfl
    rw [hprint, List.foldlM_cons, line_origin hlast]
    show List.foldlM Reading.line _ [_] = _
    rw [List.foldlM_cons, line_noNewline rfl, endless_push, Reading.take, SourceLine.content, hended]
    simp only [trimLine_append, Bool.false_eq_true, if_false, List.append_nil]
    rfl

/-- **The lines of a hunk are read with their numbers**, but for those skipped. -/
theorem foldlM_lines : ∀ {ls : List SourceLine} {s : Reading} {h : Hunk},
    (∀ l ∈ ls, l.Printed) → s.hunks = hs ++ [h] →
      ((ls.flatMap SourceLine.print).map (· ++ [newline])).foldlM Reading.line s = .ok { s with
        old := s.old + (kept ls).countP fun l => l.origin ≠ .added
        new := s.new + (kept ls).countP fun l => l.origin ≠ .deleted
        adds := s.adds + (kept ls).countP fun l => l.origin = .added
        dels := s.dels + (kept ls).countP fun l => l.origin = .deleted
        hunks := hs ++ [{ h with lines := h.lines ++ number s.old s.new (kept ls) }] }
  | [], s, h, _, hlast => by
    show Except.ok s = _
    rw [kept, List.filter_nil, number, List.append_nil, ← hlast]
    rfl
  | l :: ls, s, h, hls, hlast => by
    rw [List.flatMap_cons, List.map_append, List.foldlM_append]
    have hrest := fun d hd => hls d (List.mem_cons_of_mem l hd)
    cases hbare : l.bare with
    | true =>
      have hprint : l.print.map (· ++ [newline]) = [[newline]] := by
        rw [SourceLine.print, hbare]
        rfl
      have hskip : (l.print.map (· ++ [newline])).foldlM Reading.line s = .ok s := by
        rw [hprint, List.foldlM_cons, line_bare hlast]
        rfl
      have hkept : kept (l :: ls) = kept ls := List.filter_cons_of_neg (by simp [hbare])
      rw [hskip, hkept]
      exact foldlM_lines hrest hlast
    | false =>
      have hkept : kept (l :: ls) = l :: kept ls := List.filter_cons_of_pos (by simp [hbare])
      rw [foldlM_print hlast hbare, hkept]
      show List.foldlM Reading.line (s.take hs h l) _ = _
      rw [foldlM_lines (h := h.push ⟨none, l.origin, if l.origin = .added then none else some s.old,
        if l.origin = .deleted then none else some s.new, l.content⟩) hrest rfl]
      simp only [Reading.take, Hunk.push, List.append_assoc, List.singleton_append, number,
        List.countP_cons, decide_eq_true_eq, ne_eq, ite_not, Nat.add_assoc, Nat.add_comm]

/-! ## A section -/

/-- The lines that change something are never skipped. -/
theorem countP_kept {ls : List SourceLine} (hls : ∀ l ∈ ls, l.Printed) {o : Origin}
    (ho : o ≠ .context) :
    (kept ls).countP (fun l => l.origin = o) = ls.countP fun l => l.origin = o := by
  induction ls with
  | nil => rfl
  | cons l ls ih =>
    have hrest := ih fun d hd => hls d (List.mem_cons_of_mem l hd)
    cases hbare : l.bare with
    | true =>
      have hkept : kept (l :: ls) = kept ls := List.filter_cons_of_neg (by simp [hbare])
      have hcontext := ((hls l List.mem_cons_self).bare hbare).1
      have hne : ¬ decide (l.origin = o) = true := by
        rw [hcontext]
        simpa using ho.symm
      rw [hkept, hrest]
      exact (List.countP_cons_of_neg (p := fun l : SourceLine => l.origin = o) hne).symm
    | false =>
      have hkept : kept (l :: ls) = l :: kept ls := List.filter_cons_of_pos (by simp [hbare])
      rw [hkept, List.countP_cons, List.countP_cons, hrest]

def SourceHunk.changed (h : SourceHunk) (o : Origin) : Nat := h.lines.countP fun l => l.origin = o

theorem line_header {h : SourceHunk} (hp : h.Printed) (s : Reading) :
    s.line (h.header ++ [newline]) = .ok { s with
      old := h.oldStart
      new := h.newStart
      hunks := s.hunks ++ [⟨none, h.oldStart, h.oldLines, h.newStart, h.newLines, []⟩] } := by
  have hbinary : isBinary (h.header ++ [newline]) = false := rfl
  have hstart : startsWith (asciis "@@ ") (h.header ++ [newline]) = true := rfl
  unfold Reading.line
  simp only [hbinary, Bool.or_false, hstart, if_true, SourceHunk.hunkHeader_header hp]
  rfl

/-- One hunk. -/
theorem foldlM_hunk {h : SourceHunk} (hp : h.Printed) (s : Reading) : ∃ old new,
    (h.print.map (· ++ [newline])).foldlM Reading.line s = .ok { s with
      old := old
      new := new
      adds := s.adds + h.changed .added
      dels := s.dels + h.changed .deleted
      hunks := s.hunks ++ [h.read] } := by
  refine ⟨h.oldStart + (kept h.lines).countP fun l => l.origin ≠ .added,
    h.newStart + (kept h.lines).countP fun l => l.origin ≠ .deleted, ?_⟩
  rw [SourceHunk.print, List.map_cons, List.foldlM_cons, line_header hp]
  show List.foldlM Reading.line _ _ = _
  rw [foldlM_lines hp.lines rfl, countP_kept hp.lines (by decide), countP_kept hp.lines (by decide)]
  rfl

theorem foldlM_hunks : ∀ {hunks : List SourceHunk} {s : Reading}, (∀ h ∈ hunks, h.Printed) →
    ∃ old new, ((hunks.flatMap SourceHunk.print).map (· ++ [newline])).foldlM Reading.line s =
      .ok { s with
        old := old
        new := new
        adds := s.adds + (hunks.map (SourceHunk.changed · .added)).sum
        dels := s.dels + (hunks.map (SourceHunk.changed · .deleted)).sum
        hunks := s.hunks ++ hunks.map SourceHunk.read }
  | [], s, _ => ⟨s.old, s.new, by simp [pure, Except.pure]⟩
  | h :: hunks, s, hp => by
    obtain ⟨old, new, hone⟩ := foldlM_hunk (hp h List.mem_cons_self) s
    rw [List.flatMap_cons, List.map_append, List.foldlM_append, hone]
    obtain ⟨old', new', hrest⟩ := @foldlM_hunks hunks
      { s with
        old := old
        new := new
        adds := s.adds + h.changed .added
        dels := s.dels + h.changed .deleted
        hunks := s.hunks ++ [h.read] } fun g hg => hp g (List.mem_cons_of_mem h hg)
    refine ⟨old', new', hrest.trans ?_⟩
    simp only [List.map_cons, List.sum_cons, List.append_assoc, List.singleton_append,
      Nat.add_assoc]

/-- Before the first hunk a line can only say that the file is binary. -/
theorem foldlM_head : ∀ {ls : List (List UInt8)} {s : Reading},
    (∀ l ∈ ls, newline ∉ l ∧ startsWith (asciis "@@ ") (l ++ [newline]) = false) → s.hunks = [] →
      (ls.map (· ++ [newline])).foldlM Reading.line s =
        .ok { s with binary := s.binary || ls.any fun l => isBinary (l ++ [newline]) }
  | [], s, _, _ => by
    show Except.ok s = _
    rw [List.any_nil, Bool.or_false]
  | l :: ls, s, hls, hnil => by
    have hline : s.line (l ++ [newline]) =
        .ok { s with binary := s.binary || isBinary (l ++ [newline]) } := by
      unfold Reading.line
      simp only [(hls l List.mem_cons_self).2, Bool.false_eq_true, if_false, hnil, List.getLast?_nil]
    rw [List.map_cons, List.foldlM_cons, hline]
    show List.foldlM Reading.line _ _ = _
    rw [@foldlM_head ls { s with binary := s.binary || isBinary (l ++ [newline]) }
      (fun d hd => hls d (List.mem_cons_of_mem l hd)) hnil, List.any_cons, Bool.or_assoc]

theorem print_notMem {s : Section} (hp : s.Printed) : ∀ l ∈ s.lines, newline ∉ l := by
  intro l hl
  rcases List.mem_append.mp hl with hl | hl
  · exact (hp.head l hl).1
  · obtain ⟨h, hh, hl⟩ := List.mem_flatMap.mp hl
    have hhunk := hp.hunks h hh
    rcases List.mem_cons.mp hl with rfl | hl
    · have hrange : ∀ start count, newline ∉ rangeText start count := fun start count =>
        rangeText_notMem (by decide) (by decide)
      have hnot : newline ∉ asciis "@@" := by decide
      have hspace : newline ≠ space := by decide
      have hminus : newline ≠ ascii '-' := by decide
      have hplus : newline ≠ ascii '+' := by decide
      simp [SourceHunk.header, Splits.terminated, hrange, hnot, hspace, hminus, hplus,
        hhunk.heading]
    · obtain ⟨line, hline, hl⟩ := List.mem_flatMap.mp hl
      have hprinted := hhunk.lines line hline
      rw [SourceLine.print] at hl
      split at hl
      · rw [List.mem_singleton.mp hl]
        exact List.not_mem_nil
      · have horigin : ∀ o : Origin, newline ≠ o.byte := fun o => by cases o <;> decide
        rcases List.mem_cons.mp hl with rfl | hl
        · simp [horigin, hprinted.text]
        · split at hl
          · exact absurd hl List.not_mem_nil
          · rw [List.mem_singleton.mp hl]
            decide

variable (hash : Value → String) (file : Value)

/-- The hunks of a section, without the lines that are skipped. -/
def Section.read (s : Section) : Patch where
  hunks := s.hunks.map fun h => h.read.identify hash file
  binary := s.binary
  additions := (s.hunks.map (SourceHunk.changed · .added)).sum
  deletions := (s.hunks.map (SourceHunk.changed · .deleted)).sum

/-- **What is read of a section.** -/
theorem patch_print {s : Section} (hp : s.Printed) :
    patch hash file s.print = .ok (s.read hash file) := by
  have hsplit : Splits.splitInclusive newline s.print = s.lines.map (· ++ [newline]) := by
    have hterm := Splits.splitInclusive_terminated (print_notMem hp) []
    rwa [List.append_nil, Splits.splitInclusive, List.append_nil] at hterm
  rw [patch, hsplit, Section.lines, List.map_append, List.foldlM_append,
    foldlM_head hp.head rfl]
  obtain ⟨old, new, hhunks⟩ := @foldlM_hunks s.hunks
    ⟨[], 0, 0, 0, 0, false || s.head.any fun l => isBinary (l ++ [newline])⟩ hp.hunks
  show (do
    let s ← List.foldlM Reading.line
      ⟨[], 0, 0, 0, 0, false || s.head.any fun l => isBinary (l ++ [newline])⟩ _
    Except.ok _) = _
  rw [hhunks]
  simp only [bind, Except.bind, List.nil_append, List.map_map, Function.comp_def, Nat.zero_add,
    Bool.false_or]
  rfl

/-! ## Completeness -/

/-- A hunk is read completely: every line once, with its side and its bytes, as many on each
    side as the ranges say, and numbered without a gap from their starts. -/
structure SourceHunk.Complete (h : SourceHunk) (k : Hunk) : Prop where
  range : k.oldStart = h.oldStart ∧ k.oldLines = h.oldLines ∧ k.newStart = h.newStart ∧
    k.newLines = h.newLines
  lines : k.lines.map (fun l => (l.origin, l.content)) = h.lines.map fun l => (l.origin, l.content)
  oldLines : k.lines.countP (fun l => l.origin ≠ .added) = k.oldLines
  newLines : k.lines.countP (fun l => l.origin ≠ .deleted) = k.newLines
  oldNumbers : k.lines.filterMap Line.oldLine = List.range' k.oldStart k.oldLines
  newNumbers : k.lines.filterMap Line.newLine = List.range' k.newStart k.newLines
  oldSide : ∀ l ∈ k.lines, l.oldLine.isSome = true ↔ l.origin ≠ .added
  newSide : ∀ l ∈ k.lines, l.newLine.isSome = true ↔ l.origin ≠ .deleted

/-- The section is read completely. -/
structure Section.Complete (s : Section) (p : Patch) : Prop where
  hunks : List.Forall₂ SourceHunk.Complete s.hunks p.hunks
  additions : p.additions =
    (p.hunks.map fun k => k.lines.countP fun l => l.origin = .added).sum
  deletions : p.deletions =
    (p.hunks.map fun k => k.lines.countP fun l => l.origin = .deleted).sum

variable {hash file}

/-- Naming lines changes nothing else of them. -/
theorem map_identify {α : Type} (g : Line → α) (id : String)
    (hg : ∀ n l, g (Line.identify hash id n l) = g l) (ls : List Line) :
    (ls.mapIdx (Line.identify hash id)).map g = ls.map g := by
  apply List.ext_getElem?
  intro n
  simp only [List.getElem?_map, List.getElem?_mapIdx, Option.map_map]
  cases ls[n]? with
  | none => rfl
  | some l => exact congrArg some (hg n l)

theorem identify_fields (id : String) (n : Nat) (l : Line) :
    (Line.identify hash id n l).origin = l.origin ∧
      (Line.identify hash id n l).content = l.content ∧
      (Line.identify hash id n l).oldLine = l.oldLine ∧
      (Line.identify hash id n l).newLine = l.newLine := by
  rw [Line.identify]
  split
  · exact ⟨rfl, rfl, rfl, rfl⟩
  · exact ⟨rfl, rfl, rfl, rfl⟩

/-- What a line says, without its name. -/
def Line.said (l : Line) : Origin × Option Nat × Option Nat × List UInt8 :=
  (l.origin, l.oldLine, l.newLine, l.content)

/-- Completeness is about what the lines say. -/
theorem SourceHunk.Complete.congr {h : SourceHunk} {k k' : Hunk} (hc : h.Complete k)
    (hrange : k'.oldStart = k.oldStart ∧ k'.oldLines = k.oldLines ∧ k'.newStart = k.newStart ∧
      k'.newLines = k.newLines)
    (hlines : k'.lines.map Line.said = k.lines.map Line.said) : h.Complete k' := by
  obtain ⟨hos, hol, hns, hnl⟩ := hrange
  have hmap : ∀ {α : Type} (g : Origin × Option Nat × Option Nat × List UInt8 → α),
      k'.lines.map (fun l => g l.said) = k.lines.map fun l => g l.said := by
    intro α g
    have hcongr := congrArg (List.map g) hlines
    rwa [List.map_map, List.map_map] at hcongr
  have hcount : ∀ p : Origin → Bool,
      k'.lines.countP (fun l => p l.origin) = k.lines.countP fun l => p l.origin := by
    intro p
    have hcongr := congrArg (List.countP fun s => p s.1) hlines
    rwa [List.countP_map, List.countP_map] at hcongr
  have hnumbers : ∀ g : Origin × Option Nat × Option Nat × List UInt8 → Option Nat,
      k'.lines.filterMap (fun l => g l.said) = k.lines.filterMap fun l => g l.said := by
    intro g
    have hcongr := congrArg (List.filterMap g) hlines
    rwa [List.filterMap_map, List.filterMap_map] at hcongr
  have hmem : ∀ l ∈ k'.lines, ∃ m ∈ k.lines, m.said = l.said := by
    intro l hl
    have hsaid := List.mem_map_of_mem (f := Line.said) hl
    rw [hlines] at hsaid
    exact List.mem_map.mp hsaid
  exact {
    range := by rw [hos, hol, hns, hnl]; exact hc.range
    lines := (hmap fun s => (s.1, s.2.2.2)).trans hc.lines
    oldLines := by rw [hol]; exact (hcount fun o => o ≠ .added).trans hc.oldLines
    newLines := by rw [hnl]; exact (hcount fun o => o ≠ .deleted).trans hc.newLines
    oldNumbers := by rw [hos, hol]; exact (hnumbers fun s => s.2.1).trans hc.oldNumbers
    newNumbers := by rw [hns, hnl]; exact (hnumbers fun s => s.2.2.1).trans hc.newNumbers
    oldSide := by
      intro l hl
      obtain ⟨m, hm, hsaid⟩ := hmem l hl
      rw [Line.said, Line.said, Prod.mk.injEq, Prod.mk.injEq] at hsaid
      rw [← hsaid.1, ← hsaid.2.1]
      exact hc.oldSide m hm
    newSide := by
      intro l hl
      obtain ⟨m, hm, hsaid⟩ := hmem l hl
      rw [Line.said, Line.said, Prod.mk.injEq, Prod.mk.injEq, Prod.mk.injEq] at hsaid
      rw [← hsaid.1, ← hsaid.2.2.1]
      exact hc.newSide m hm }

theorem said_identify (k : Hunk) :
    (k.identify hash file).lines.map Line.said = k.lines.map Line.said := by
  apply map_identify
  intro n l
  obtain ⟨horigin, hcontent, hold, hnew⟩ :=
    @identify_fields hash (hash (.arr [file, k.json])) n l
  rw [Line.said, Line.said, horigin, hcontent, hold, hnew]

theorem complete_identify {h : SourceHunk} {k : Hunk} :
    h.Complete (k.identify hash file) ↔ h.Complete k :=
  ⟨fun hc => hc.congr ⟨rfl, rfl, rfl, rfl⟩ (said_identify k).symm,
    fun hc => hc.congr ⟨rfl, rfl, rfl, rfl⟩ (said_identify k)⟩

/-! ### Numbered lines -/

theorem number_lines : ∀ (ls : List SourceLine) (old new : Nat),
    (number old new ls).map (fun l => (l.origin, l.content)) = ls.map fun l => (l.origin, l.content)
  | [], _, _ => rfl
  | l :: ls, old, new => by
    rw [number, List.map_cons, number_lines ls, List.map_cons]

theorem countP_number (p : Origin → Bool) : ∀ (ls : List SourceLine) (old new : Nat),
    (number old new ls).countP (fun l => p l.origin) = ls.countP fun l => p l.origin
  | [], _, _ => rfl
  | l :: ls, old, new => by
    rw [number, List.countP_cons, countP_number p ls, List.countP_cons]

/-- The numbers of the old side go on without a gap. -/
theorem number_old : ∀ (ls : List SourceLine) (old new : Nat),
    (number old new ls).filterMap Line.oldLine =
      List.range' old (ls.countP fun l => l.origin ≠ .added)
  | [], _, _ => rfl
  | l :: ls, old, new => by
    rw [number, List.countP_cons]
    by_cases hadded : l.origin = .added
    · simp [hadded, number_old ls]
    · simp [hadded, number_old ls, List.range'_succ]

theorem number_new : ∀ (ls : List SourceLine) (old new : Nat),
    (number old new ls).filterMap Line.newLine =
      List.range' new (ls.countP fun l => l.origin ≠ .deleted)
  | [], _, _ => rfl
  | l :: ls, old, new => by
    rw [number, List.countP_cons]
    by_cases hdeleted : l.origin = .deleted
    · simp [hdeleted, number_new ls]
    · simp [hdeleted, number_new ls, List.range'_succ]

theorem number_sides : ∀ {ls : List SourceLine} {old new : Nat}, ∀ l ∈ number old new ls,
    (l.oldLine.isSome = true ↔ l.origin ≠ .added) ∧ (l.newLine.isSome = true ↔ l.origin ≠ .deleted)
  | [], _, _, l, hl => absurd hl List.not_mem_nil
  | d :: ls, old, new, l, hl => by
    rw [number] at hl
    rcases List.mem_cons.mp hl with rfl | hl
    · cases d.origin <;> simp
    · exact number_sides l hl

/-- A hunk is read completely exactly where none of its lines is skipped. -/
theorem complete_read {h : SourceHunk} : h.Complete h.read ↔ ∀ l ∈ h.lines, l.bare = false := by
  constructor
  · intro hc
    have hlen := congrArg List.length hc.lines
    rw [SourceHunk.read, number_lines, List.length_map, List.length_map] at hlen
    intro l hl
    have hkept := List.length_filter_eq_length_iff.mp hlen l hl
    simpa using hkept
  · intro hall
    have hkept : kept h.lines = h.lines :=
      List.filter_eq_self.mpr fun l hl => by rw [hall l hl]; rfl
    have hread : h.read.lines = number h.oldStart h.newStart h.lines := by
      rw [SourceHunk.read, hkept]
    exact {
      range := ⟨rfl, rfl, rfl, rfl⟩
      lines := by rw [hread]; exact number_lines _ _ _
      oldLines := by rw [hread]; exact countP_number (fun o => o ≠ .added) _ _ _
      newLines := by rw [hread]; exact countP_number (fun o => o ≠ .deleted) _ _ _
      oldNumbers := by rw [hread]; exact number_old _ _ _
      newNumbers := by rw [hread]; exact number_new _ _ _
      oldSide := fun l hl => (number_sides l hl).1
      newSide := fun l hl => (number_sides l hl).2 }

/-- The changed lines of a hunk are all read. -/
theorem countP_read {h : SourceHunk} (hp : h.Printed) {o : Origin} (ho : o ≠ .context) :
    (h.read.identify hash file).lines.countP (fun l => l.origin = o) = h.changed o := by
  have hsaid := congrArg (List.countP fun s => s.1 = o) (@said_identify hash file h.read)
  rw [List.countP_map, List.countP_map] at hsaid
  calc (h.read.identify hash file).lines.countP (fun l => l.origin = o)
      = h.read.lines.countP fun l => l.origin = o := hsaid
    _ = (kept h.lines).countP fun l => l.origin = o := countP_number (fun p => p = o) _ _ _
    _ = h.changed o := countP_kept hp.lines ho

theorem complete_section {s : Section} (hp : s.Printed) : s.Complete (s.read hash file) ↔
    ∀ h ∈ s.hunks, ∀ l ∈ h.lines, l.bare = false := by
  have hsum : ∀ {o : Origin}, o ≠ .context → (s.hunks.map (SourceHunk.changed · o)).sum =
      ((s.hunks.map fun h => h.read.identify hash file).map fun k =>
        k.lines.countP fun l => l.origin = o).sum := by
    intro o ho
    rw [List.map_map]
    exact congrArg List.sum
      (List.map_congr_left fun h hh => (countP_read (hp.hunks h hh) ho).symm)
  constructor
  · intro hc h hh
    have hhunks := List.forall₂_map_right_iff.mp hc.hunks
    have hone := List.forall₂_same.mp hhunks h hh
    exact complete_read.mp (complete_identify.mp hone)
  · intro hall
    refine ⟨?_, hsum (by decide), hsum (by decide)⟩
    apply List.forall₂_map_right_iff.mpr
    apply List.forall₂_same.mpr
    intro h hh
    exact complete_identify.mpr (complete_read.mpr (hall h hh))

/-- **A section is read completely exactly where no line of it is printed as a line feed
    alone.** -/
theorem patch_complete_iff {s : Section} (hp : s.Printed) :
    (∃ p, patch hash file s.print = .ok p ∧ s.Complete p) ↔
      ∀ h ∈ s.hunks, ∀ l ∈ h.lines, l.bare = false := by
  rw [← @complete_section hash file s hp, patch_print hash file hp]
  constructor
  · rintro ⟨p, hpatch, hc⟩
    rwa [Except.ok.inj hpatch]
  · exact fun hc => ⟨_, rfl, hc⟩

/-- A changed line behind a context line, which is empty and may be printed as a line feed. -/
def shortHunk (bare : Bool) : SourceHunk :=
  ⟨1, 1, [], [⟨.context, [], true, bare⟩, ⟨.deleted, [97], true, false⟩,
    ⟨.added, [98], false, false⟩]⟩

def shortSection (bare : Bool) : Section := ⟨[asciis "diff --git a/x b/x"], [shortHunk bare]⟩

theorem shortSection_printed (bare : Bool) : (shortSection bare).Printed where
  head l hl := by
    rw [List.mem_singleton.mp hl]
    exact ⟨by decide, by decide⟩
  hunks h hh := by
    rw [List.mem_singleton.mp hh]
    have hone : 1 ≤ usizeMax ∧ 3 ≤ usizeMax := by decide
    refine ⟨List.not_mem_nil, ?_, hone.1, hone.1, hone.2⟩
    show ∀ l ∈ [_, _, _], SourceLine.Printed l
    simp only [List.forall_mem_cons]
    refine ⟨⟨List.not_mem_nil, fun _ => ⟨rfl, rfl, rfl⟩⟩, ⟨by decide, fun h => by cases h⟩,
      ⟨by decide, fun h => by cases h⟩, fun l hl => absurd hl List.not_mem_nil⟩

theorem bareLine_lost : (shortSection true).Printed ∧ ∀ hash file,
    ¬ ∃ p, patch hash file (shortSection true).print = .ok p ∧ (shortSection true).Complete p := by
  refine ⟨shortSection_printed true, ?_⟩
  rintro hash file ⟨p, hpatch, hc⟩
  rw [patch_print hash file (shortSection_printed true)] at hpatch
  obtain rfl := Except.ok.inj hpatch
  have hhunk := (List.forall₂_cons.mp hc.hunks).1
  have hbare := complete_read.mp (complete_identify.mp hhunk) ⟨.context, [], true, true⟩
    List.mem_cons_self
  cases hbare

theorem blankLine_complete : ∃ p, patch (fun _ => "") .null (shortSection false).print = .ok p ∧
    (shortSection false).Complete p := by
  apply (patch_complete_iff (shortSection_printed false)).mpr
  intro h hh l hl
  rw [List.mem_singleton.mp hh] at hl
  have hall : ((shortHunk false).lines.all fun l => !l.bare) = true := by decide
  simpa using List.all_eq_true.mp hall l hl

end Porthop.Git.Cli
