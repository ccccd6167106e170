import Porthop.Lib.Base64
import Porthop.Lib.Lists
import Porthop.Lib.Lossy
import Porthop.Lib.Memo
import Porthop.Lib.Splits

/- What the desktop shows of a diff (`historicalDiff.ts`).

   The agent sends a diff in pages, and a line that is long in several pieces. A line is shown
   when its last piece is there, and the identifiers that changes are asked for by only where a
   hunk is there as a whole. The text of a line is kept under its last piece from one page to
   the next. Pieces are objects: a page names them, and two pages may name the same ones. -/
namespace Porthop.Git.DiffRenderer

open Porthop.Splits (Closed groups)

def atob (s : String) : Option (List UInt8) := Base64.standard.decode s.toList

def btoa (raw : List UInt8) : String := String.ofList (Base64.standard.encode raw)

/-- A mark of the byte order at the start is no part of the text. -/
def decode (raw : List UInt8) : String :=
  Utf8.fromUtf8Lossy (if raw.take 3 = [0xef, 0xbb, 0xbf] then raw.drop 3 else raw)

/-- A piece of a line, as a page that was checked has it. -/
structure Piece where
  id : Option String
  lineComplete : Bool
  origin : String
  oldLine : Option Nat
  newLine : Option Nat
  contentBytesB64 : String
  decoded : (atob contentBytesB64).isSome

def Piece.raw (p : Piece) : List UInt8 := (atob p.contentBytesB64).get p.decoded

/-- A piece object. -/
abbrev PieceRef := Nat

/-- `Span` is what the renderer copies of a hunk. -/
structure HunkPage (Span : Type) where
  span : Span
  id : Option String
  totalLines : Option Nat
  lines : List PieceRef

/-- `Delta` is what the renderer copies of a file. -/
structure FilePage (Delta Span : Type) where
  delta : Delta
  hunks : List (HunkPage Span)

inductive Metadata (Comparison : Type) where
  | commit (comparison : Comparison)
  | working (sourceSnapshot : String) (totalFiles : Nat)

structure DiffPage (Comparison Delta Span : Type) where
  snapshot : String
  metadata : Metadata Comparison
  entries : List (FilePage Delta Span)

structure Content where
  bytesB64 : String
  display : String
  deriving DecidableEq

structure DiffLine where
  id : Option String
  origin : String
  oldLine : Option Nat
  newLine : Option Nat
  content : Content
  deriving DecidableEq

structure DiffHunk (Span : Type) where
  span : Span
  id : Option String
  totalLines : Option Nat
  lines : List DiffLine
  deriving DecidableEq

structure DiffFile (Delta Span : Type) where
  delta : Delta
  hunks : List (DiffHunk Span)
  deriving DecidableEq

structure GitDiff (Comparison Delta Span : Type) where
  snapshot : String
  comparison : Option Comparison
  readOnly : Bool
  truncated : Bool
  files : List (DiffFile Delta Span)
  deriving DecidableEq

/-! ## The renderer -/

abbrev CompleteLines := Memo.Cache (Option PieceRef) (List PieceRef) Content

structure Renderer where
  snapshot : Option String
  completeLines : CompleteLines

def createDiffRenderer : Renderer := ⟨none, []⟩

section
variable (piece : PieceRef → Piece)

def joined (pieces : List PieceRef) : List UInt8 := pieces.flatMap fun p => (piece p).raw

def decodeContent (pieces : List PieceRef) : Content where
  bytesB64 :=
    match pieces with
    | [last] => (piece last).contentBytesB64
    | _ => btoa (joined piece pieces)
  display := decode (joined piece pieces)

def content (pieces : List PieceRef) : StateM CompleteLines Content :=
  Memo.ask List.getLast? (decodeContent piece) pieces

def line (working : Bool) (last : Piece) (content : Content) : DiffLine where
  id := if working then last.id else none
  origin := last.origin
  oldLine := last.oldLine
  newLine := last.newLine
  content := content

/-- The loop over the pieces of a hunk; what it returns are the lines and the pending pieces. -/
def readLines (working : Bool) :
    List PieceRef → List DiffLine → List PieceRef → StateM CompleteLines (List DiffLine × List PieceRef)
  | pending, lines, [] => pure (lines, pending)
  | pending, lines, p :: pieces =>
    if (piece p).lineComplete then do
      let c ← content piece (pending ++ [p])
      readLines working [] (lines ++ [line working (piece p) c]) pieces
    else readLines working (pending ++ [p]) lines pieces

variable {Comparison Delta Span : Type}

/-- The hunk with the lines that were read. -/
def closeHunk (working completeFiles : Bool) (hunk : HunkPage Span)
    (read : List DiffLine × List PieceRef) : DiffHunk Span :=
  let complete := completeFiles && hunk.totalLines = some read.1.length && read.2.isEmpty
  { span := hunk.span
    id := if working && complete then hunk.id else none
    totalLines := hunk.totalLines
    lines := if complete then read.1 else read.1.map fun l => { l with id := none } }

def renderHunk (working completeFiles : Bool) (hunk : HunkPage Span) :
    StateM CompleteLines (DiffHunk Span) := do
  let read ← readLines piece working [] [] hunk.lines
  pure (closeHunk working completeFiles hunk read)

def renderFile (working completeFiles : Bool) (file : FilePage Delta Span) :
    StateM CompleteLines (DiffFile Delta Span) := do
  let hunks ← file.hunks.mapM (renderHunk piece working completeFiles)
  pure ⟨file.delta, hunks⟩

def DiffPage.working (page : DiffPage Comparison Delta Span) : Bool :=
  match page.metadata with
  | .commit _ => false
  | .working _ _ => true

/-- A partial directory must not look like a one-file mutation target. -/
def DiffPage.completeFiles (page : DiffPage Comparison Delta Span) : Bool :=
  match page.metadata with
  | .commit _ => true
  | .working _ totalFiles => page.entries.length = totalFiles

def DiffPage.diff (page : DiffPage Comparison Delta Span) (files : List (DiffFile Delta Span)) :
    GitDiff Comparison Delta Span where
  snapshot :=
    match page.metadata with
    | .commit _ => page.snapshot
    | .working sourceSnapshot _ => sourceSnapshot
  comparison :=
    match page.metadata with
    | .commit comparison => some comparison
    | .working _ _ => none
  readOnly := !page.working
  truncated := false
  files := files

/-- Another snapshot releases the decoded text. -/
def Renderer.select (r : Renderer) (snapshot : String) : CompleteLines :=
  if r.snapshot = some snapshot then r.completeLines else []

def render (r : Renderer) (page : DiffPage Comparison Delta Span) :
    GitDiff Comparison Delta Span × Renderer :=
  let (files, completeLines) :=
    (page.entries.mapM (renderFile piece page.working page.completeFiles)) (r.select page.snapshot)
  (page.diff files, ⟨some page.snapshot, completeLines⟩)

/-- What one renderer shows of one page after another. -/
def renderAll (r : Renderer) : List (DiffPage Comparison Delta Span) → List (GitDiff Comparison Delta Span)
  | [] => []
  | page :: pages => (render piece r page).1 :: renderAll (render piece r page).2 pages

/-- What a fresh renderer shows. -/
def historicalDiff (page : DiffPage Comparison Delta Span) : GitDiff Comparison Delta Span :=
  (render piece createDiffRenderer page).1

end

/-! ## The cache shows in nothing -/

section
variable {piece : PieceRef → Piece} {Comparison Delta Span : Type} {working completeFiles : Bool}

def closes (piece : PieceRef → Piece) (p : PieceRef) : Bool := (piece p).lineComplete

/-- The line of a group of pieces. -/
def lineOf (piece : PieceRef → Piece) (working : Bool) (g : List PieceRef) : DiffLine :=
  line working (piece (g.getLastD 0)) (decodeContent piece g)

/-- The lines of a hunk and the pieces of a line that is not there yet. -/
def hunkGroups (piece : PieceRef → Piece) (hunk : HunkPage Span) :
    List (List PieceRef) × List PieceRef :=
  groups (closes piece) [] hunk.lines

theorem computes_readLines (pieces pending : List PieceRef) (lines : List DiffLine) :
    Memo.Computes (decodeContent piece) (readLines piece working pending lines pieces)
      (lines ++ (groups (closes piece) pending pieces).1.map (lineOf piece working),
        (groups (closes piece) pending pieces).2) := by
  induction pieces generalizing pending lines with
  | nil =>
    simp only [readLines, groups, List.map_nil, List.append_nil]
    exact Memo.Computes.pure _
  | cons p pieces ih =>
    cases hp : closes piece p with
    | true =>
      have hcomplete : (piece p).lineComplete = true := hp
      have hlast : lineOf piece working (pending ++ [p]) =
          line working (piece p) (decodeContent piece (pending ++ [p])) := by
        rw [lineOf, List.getLastD_concat]
      rw [Splits.groups_closes hp, List.map_cons, hlast,
        List.append_cons]
      simp only [readLines, hcomplete, if_true]
      exact (Memo.computes_ask (pending ++ [p])).bind (ih [] _)
    | false =>
      have hcomplete : (piece p).lineComplete = false := hp
      rw [Splits.groups_open hp]
      simp only [readLines, hcomplete, Bool.false_eq_true, if_false]
      exact ih (pending ++ [p]) lines

/-- The hunk a fresh renderer shows. -/
def hunkOf (piece : PieceRef → Piece) (working completeFiles : Bool) (hunk : HunkPage Span) :
    DiffHunk Span :=
  closeHunk working completeFiles hunk
    ((hunkGroups piece hunk).1.map (lineOf piece working), (hunkGroups piece hunk).2)

theorem computes_renderHunk (hunk : HunkPage Span) :
    Memo.Computes (decodeContent piece) (renderHunk piece working completeFiles hunk)
      (hunkOf piece working completeFiles hunk) := by
  apply (computes_readLines hunk.lines [] []).bind
  rw [List.nil_append]
  exact Memo.Computes.pure _

def fileOf (piece : PieceRef → Piece) (working completeFiles : Bool) (file : FilePage Delta Span) :
    DiffFile Delta Span :=
  ⟨file.delta, file.hunks.map (hunkOf piece working completeFiles)⟩

theorem computes_renderFile (file : FilePage Delta Span) :
    Memo.Computes (decodeContent piece) (renderFile piece working completeFiles file)
      (fileOf piece working completeFiles file) := by
  apply (Memo.Computes.mapM computes_renderHunk file.hunks).bind
  exact Memo.Computes.pure _

def diffOf (piece : PieceRef → Piece) (page : DiffPage Comparison Delta Span) :
    GitDiff Comparison Delta Span :=
  page.diff (page.entries.map (fileOf piece page.working page.completeFiles))

def Renderer.Sound (piece : PieceRef → Piece) (r : Renderer) : Prop :=
  Memo.Sound (decodeContent piece) r.completeLines

theorem createDiffRenderer_sound : createDiffRenderer.Sound piece := Memo.sound_nil

theorem Renderer.Sound.select {r : Renderer} (h : r.Sound piece) (snapshot : String) :
    Memo.Sound (decodeContent piece) (r.select snapshot) := by
  unfold Renderer.select
  split
  · exact h
  · exact Memo.sound_nil

/-- One page. -/
theorem render_sound {r : Renderer} (h : r.Sound piece) (page : DiffPage Comparison Delta Span) :
    (render piece r page).1 = diffOf piece page ∧ (render piece r page).2.Sound piece := by
  have hfiles : Memo.Computes (decodeContent piece)
      (page.entries.mapM (renderFile piece page.working page.completeFiles))
      (page.entries.map (fileOf piece page.working page.completeFiles)) :=
    Memo.Computes.mapM computes_renderFile page.entries
  obtain ⟨hval, hsound⟩ := hfiles _ (h.select page.snapshot)
  constructor
  · exact congrArg page.diff hval
  · exact hsound

/-- Any number of pages, by induction on them. -/
theorem renderAll_sound {r : Renderer} (h : r.Sound piece)
    (pages : List (DiffPage Comparison Delta Span)) :
    renderAll piece r pages = pages.map (diffOf piece) := by
  induction pages generalizing r with
  | nil => rfl
  | cons page pages ih =>
    obtain ⟨hval, hsound⟩ := render_sound h page
    rw [renderAll, hval, ih hsound, List.map_cons]

theorem historicalDiff_eq (page : DiffPage Comparison Delta Span) :
    historicalDiff piece page = diffOf piece page :=
  (render_sound createDiffRenderer_sound page).1

/-! ## What is shown -/

/-- A line is shown with the origin, the numbers and the identifier of its last piece, and with
the bytes of all its pieces. -/
structure ShownLine (piece : PieceRef → Piece) (g : List PieceRef) (l : DiffLine) : Prop where
  last : ∃ before p, g = before ++ [p] ∧ l.origin = (piece p).origin ∧
    l.oldLine = (piece p).oldLine ∧ l.newLine = (piece p).newLine ∧
    (l.id = none ∨ l.id = (piece p).id)
  bytes : atob l.content.bytesB64 = some (joined piece g)
  display : l.content.display = decode (joined piece g)

/-- All files of a working diff are there, and of the hunk as many lines as it has. -/
structure Whole (piece : PieceRef → Piece) (page : DiffPage Comparison Delta Span)
    (hunk : HunkPage Span) : Prop where
  files : ∃ sourceSnapshot, page.metadata = .working sourceSnapshot page.entries.length
  lines : ∃ gs : List (List PieceRef), hunk.lines = gs.flatten ∧ (∀ g ∈ gs, Closed (closes piece) g) ∧
    hunk.totalLines = some gs.length

/-- The complete lines of a hunk are shown once each and in order, and identifiers only where the
hunk is whole. -/
structure ShownHunk (piece : PieceRef → Piece) (page : DiffPage Comparison Delta Span)
    (hunk : HunkPage Span) (shown : DiffHunk Span) : Prop where
  copied : shown.span = hunk.span ∧ shown.totalLines = hunk.totalLines
  lines : ∃ gs rest, hunk.lines = gs.flatten ++ rest ∧ (∀ g ∈ gs, Closed (closes piece) g) ∧
    (∀ p ∈ rest, (piece p).lineComplete = false) ∧ List.Forall₂ (ShownLine piece) gs shown.lines
  id : shown.id = none ∨ shown.id = hunk.id
  whole : (shown.id ≠ none ∨ ∃ l ∈ shown.lines, l.id ≠ none) → Whole piece page hunk

structure ShownFile (piece : PieceRef → Piece) (page : DiffPage Comparison Delta Span)
    (file : FilePage Delta Span) (shown : DiffFile Delta Span) : Prop where
  delta : shown.delta = file.delta
  hunks : List.Forall₂ (ShownHunk piece page) file.hunks shown.hunks

/-- The text of the joined bytes; a piece that is a line by itself is not encoded again. -/
theorem atob_decodeContent (g : List PieceRef) :
    atob (decodeContent piece g).bytesB64 = some (joined piece g) := by
  have hbtoa : ∀ raw, atob (btoa raw) = some raw := by
    intro raw
    rw [atob, btoa, String.toList_ofList]
    exact Base64.standard.decode_encode raw
  match g with
  | [] => exact hbtoa _
  | [p] =>
    have hraw : atob (piece p).contentBytesB64 = some (piece p).raw :=
      (Option.some_get (piece p).decoded).symm
    rw [joined, List.flatMap_singleton]
    exact hraw
  | p :: q :: rest => exact hbtoa _

/-- With or without its identifier. -/
theorem lineOf_shown {g : List PieceRef} (h : Closed (closes piece) g) {l : DiffLine}
    (hl : l = lineOf piece working g ∨ l = { lineOf piece working g with id := none }) :
    ShownLine piece g l := by
  obtain ⟨before, p, rfl, -⟩ := h
  have hline : lineOf piece working (before ++ [p]) =
      line working (piece p) (decodeContent piece (before ++ [p])) := by
    rw [lineOf, List.getLastD_concat]
  rw [hline] at hl
  obtain rfl | rfl := hl
  · refine ⟨⟨before, p, rfl, rfl, rfl, rfl, ?_⟩, atob_decodeContent _, rfl⟩
    cases working with
    | true => exact Or.inr rfl
    | false => exact Or.inl rfl
  · exact ⟨⟨before, p, rfl, rfl, rfl, rfl, Or.inl rfl⟩, atob_decodeContent _, rfl⟩

/-- A hunk that has an identifier, or a line with one, was closed as complete. -/
theorem closeHunk_exposed {hunk : HunkPage Span} {read : List DiffLine × List PieceRef}
    (h : (closeHunk working completeFiles hunk read).id ≠ none ∨
      ∃ l ∈ (closeHunk working completeFiles hunk read).lines, l.id ≠ none) :
    completeFiles = true ∧ hunk.totalLines = some read.1.length ∧ read.2 = [] := by
  by_cases hcomplete : (completeFiles && hunk.totalLines = some read.1.length && read.2.isEmpty) = true
  · simp only [Bool.and_eq_true, decide_eq_true_eq, List.isEmpty_iff] at hcomplete
    exact ⟨hcomplete.1.1, hcomplete.1.2, hcomplete.2⟩
  · exfalso
    obtain hid | ⟨l, hl, hid⟩ := h
    · simp [closeHunk, hcomplete] at hid
    · simp only [closeHunk, hcomplete, Bool.false_eq_true, if_false, List.mem_map] at hl
      obtain ⟨m, -, rfl⟩ := hl
      exact hid rfl

/-- Neither a hunk of a commit nor its lines have identifiers. -/
theorem hunkOf_commit {hunk : HunkPage Span} :
    (hunkOf piece false completeFiles hunk).id = none ∧
      ∀ l ∈ (hunkOf piece false completeFiles hunk).lines, l.id = none := by
  refine ⟨rfl, fun l hl => ?_⟩
  unfold hunkOf closeHunk at hl
  simp only at hl
  split at hl
  · obtain ⟨g, -, rfl⟩ := List.mem_map.mp hl
    rfl
  · obtain ⟨m, -, rfl⟩ := List.mem_map.mp hl
    rfl

/-- The groups of a hunk make up its pieces. -/
theorem hunkGroups_spec (piece : PieceRef → Piece) (hunk : HunkPage Span) :
    hunk.lines = (hunkGroups piece hunk).1.flatten ++ (hunkGroups piece hunk).2 ∧
      (∀ g ∈ (hunkGroups piece hunk).1, Closed (closes piece) g) ∧
      ∀ p ∈ (hunkGroups piece hunk).2, (piece p).lineComplete = false := by
  refine ⟨?_, Splits.groups_spec (by simp)⟩
  rw [hunkGroups, Splits.flatten_groups, List.nil_append]

theorem hunkOf_lines {hunk : HunkPage Span} :
    List.Forall₂ (ShownLine piece) (hunkGroups piece hunk).1
      (hunkOf piece working completeFiles hunk).lines := by
  have hclosed := (hunkGroups_spec piece hunk).2.1
  unfold hunkOf closeHunk
  simp only
  split
  · apply Lists.forall₂_map_right
    intro g hg
    exact lineOf_shown (hclosed g hg) (Or.inl rfl)
  · rw [List.map_map]
    apply Lists.forall₂_map_right
    intro g hg
    exact lineOf_shown (hclosed g hg) (Or.inr rfl)

theorem hunkOf_shown (page : DiffPage Comparison Delta Span) (hunk : HunkPage Span) :
    ShownHunk piece page hunk (hunkOf piece page.working page.completeFiles hunk) := by
  obtain ⟨hflatten, hclosed, hopen⟩ := hunkGroups_spec piece hunk
  refine ⟨⟨rfl, rfl⟩, ⟨_, _, hflatten, hclosed, hopen, hunkOf_lines⟩, ?_, fun hids => ?_⟩
  · unfold hunkOf closeHunk
    simp only
    split
    · exact Or.inr rfl
    · exact Or.inl rfl
  · obtain ⟨hfiles, htotal, hrest⟩ := closeHunk_exposed hids
    refine ⟨?_, (hunkGroups piece hunk).1, ?_, hclosed, ?_⟩
    · cases hmeta : page.metadata with
      | commit comparison =>
        exfalso
        have hworking : page.working = false := by rw [DiffPage.working, hmeta]
        rw [hworking] at hids
        obtain hid | ⟨l, hl, hid⟩ := hids
        · exact hid hunkOf_commit.1
        · exact hid (hunkOf_commit.2 l hl)
      | working sourceSnapshot totalFiles =>
        rw [DiffPage.completeFiles, hmeta] at hfiles
        exact ⟨sourceSnapshot, by rw [of_decide_eq_true hfiles]⟩
    · have hnone : (hunkGroups piece hunk).2 = [] := hrest
      rw [hnone, List.append_nil] at hflatten
      exact hflatten
    · rw [htotal, List.length_map]

/-- One renderer shows of every page what a fresh one does: the complete lines with all their
bytes, and identifiers only where all of a hunk and all files of the comparison are there. -/
theorem renderer_stateless (piece : PieceRef → Piece) (pages : List (DiffPage Comparison Delta Span)) :
    renderAll piece createDiffRenderer pages = pages.map (historicalDiff piece) ∧
    ∀ page : DiffPage Comparison Delta Span,
      historicalDiff piece page = page.diff (historicalDiff piece page).files ∧
      List.Forall₂ (ShownFile piece page) page.entries (historicalDiff piece page).files := by
  constructor
  · rw [renderAll_sound createDiffRenderer_sound]
    apply List.map_congr_left
    intro page hpage
    exact (historicalDiff_eq page).symm
  · intro page
    rw [historicalDiff_eq]
    refine ⟨rfl, Lists.forall₂_map_right fun file hfile => ⟨rfl, Lists.forall₂_map_right fun hunk hhunk => ?_⟩⟩
    exact hunkOf_shown page hunk

end

end Porthop.Git.DiffRenderer
