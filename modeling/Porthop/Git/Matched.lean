import Porthop.Git.Grouped
import Porthop.Git.Patched

/- The raw records of a comparison and the sections of its patches are put together.

   Git prints one section for a record, and two for one that changes the type of its file: the
   old file is deleted and the new one created. The reader counts a section for a record, so
   such a comparison is not read at all; every other one is, each record with its own section. -/
namespace Porthop.Git.Cli

open MessagePack (utf8)
open Response (ObjectFormat hexText oid_hexText utf8_hexText oidValue)

/-! ## What Git prints -/

/-- The letter of a record. Unmerged paths are left out of a comparison. -/
inductive DeltaStatus where
  | added
  | deleted
  | modified
  | typeChanged
  | renamed
  | copied
  deriving DecidableEq

namespace DeltaStatus

def byte : DeltaStatus → UInt8
  | added => ascii 'A'
  | deleted => ascii 'D'
  | modified => ascii 'M'
  | typeChanged => ascii 'T'
  | renamed => ascii 'R'
  | copied => ascii 'C'

def name : DeltaStatus → String
  | added => "Added"
  | deleted => "Deleted"
  | modified => "Modified"
  | typeChanged => "Typechange"
  | renamed => "Renamed"
  | copied => "Copied"

def moves (s : DeltaStatus) : Bool := s = renamed ∨ s = copied

end DeltaStatus

def Mode.bits : Mode → Nat
  | regular => 0o100644
  | executable => 0o100755
  | symlink => 0o120000
  | gitlink => 0o160000

/-- The type of a file: regular, a link or another repository. -/
def Mode.kind : Mode → Nat
  | regular => 0
  | executable => 0
  | symlink => 1
  | gitlink => 2

/-- A record: on each side the mode, if the file is there, and the id, if it is known; the
    paths; and the section, or for a change of type the two sections, of its patch. -/
structure Record where
  oldMode : Option Mode
  newMode : Option Mode
  oldId : Option String
  newId : Option String
  status : DeltaStatus
  score : List UInt8
  path : List UInt8
  source : Option (List UInt8)
  first : Section
  second : Option Section

/-- A section begins with a line of its own. -/
structure Section.Begun (s : Section) : Prop extends s.Printed where
  begun : ∃ name ls, s.head = (asciis "diff --git " ++ name) :: ls ∧
    ∀ l ∈ ls, startsWith (asciis "diff --git ") (l ++ [newline]) = false

namespace Record

/-- The type of the file changes. -/
def typeChanged (r : Record) : Bool :=
  match r.oldMode, r.newMode with
  | some old, some new => old.kind ≠ new.kind
  | _, _ => false

def sections (r : Record) : List Section := r.first :: r.second.toList

/-- An id is a name of an object, and not the one that says there is none. -/
def Known (f : ObjectFormat) (id : Option String) : Prop :=
  ∀ hex, id = some hex → hexText f.oidLength hex ∧ ¬ (utf8 hex).all (· = ascii '0')

structure Printed (f : ObjectFormat) (r : Record) : Prop where
  oldId : Known f r.oldId
  newId : Known f r.newId
  score : Plain r.score
  path : Printable r.path
  moved : r.source.isSome = r.status.moves
  source : ∀ old, r.source = some old → Printable old
  sections : ∀ s ∈ r.sections, s.Begun
  two : r.second.isSome = r.typeChanged

def modeText (m : Option Mode) : List UInt8 := (m.map Mode.text).getD noMode

def idText (f : ObjectFormat) (id : Option String) : List UInt8 :=
  (id.map utf8).getD (List.replicate f.oidLength (ascii '0'))

def header (f : ObjectFormat) (r : Record) : List UInt8 :=
  ascii ':' :: (Splits.terminated space [modeText r.oldMode, modeText r.newMode, idText f r.oldId,
    idText f r.newId] ++ r.status.byte :: r.score)

/-- A record is its fields and its paths, the old one first. -/
def print (f : ObjectFormat) (r : Record) : List (List UInt8) :=
  r.header f :: (r.source.toList ++ [r.path])

/-- The row of a record. -/
def delta (f : ObjectFormat) (r : Record) : Delta where
  oldPath := r.source.getD r.path
  newPath := r.path
  oldOid := (r.oldId.map (oidValue f)).getD .null
  newOid := (r.newId.map (oidValue f)).getD .null
  oldMode := (r.oldMode.map Mode.bits).getD 0
  newMode := (r.newMode.map Mode.bits).getD 0
  status := r.status.name

/-- What its sections show of the file. -/
def joined (r : Record) : Section :=
  ⟨r.sections.flatMap Section.head, r.sections.flatMap Section.hunks⟩

end Record

def rawText (f : ObjectFormat) (rs : List Record) : List UInt8 :=
  Splits.terminated 0 (rs.flatMap (Record.print f))

def patchText (rs : List Record) : List UInt8 :=
  (rs.flatMap Record.sections).flatMap Section.print

/-! ## The records -/

variable {f : ObjectFormat} {r : Record} {rs : List Record}

theorem parseOctal_mode (m : Option Mode) :
    parseOctal (Record.modeText m) = some ((m.map Mode.bits).getD 0) := by
  cases m with
  | none => decide
  | some m => cases m <;> decide

theorem optionalOid_id {id : Option String} (h : Record.Known f id) :
    optionalOid (Record.idText f id) = .ok ((id.map (oidValue f)).getD .null) := by
  cases id with
  | none =>
    have hall : (List.replicate f.oidLength (ascii '0')).all (· = ascii '0') = true := by
      rw [List.all_eq_true]
      intro b hb
      exact decide_eq_true (List.eq_of_mem_replicate hb)
    exact if_pos hall
  | some hex =>
    obtain ⟨hhex, hall⟩ := h hex rfl
    show optionalOid (utf8 hex) = _
    rw [optionalOid, if_neg hall]
    exact oid_hexText hhex

theorem plain_modeText (m : Option Mode) : Plain (Record.modeText m) := by
  cases m with
  | none => exact ⟨by decide, by decide⟩
  | some m => cases m <;> exact ⟨by decide, by decide⟩

theorem plain_idText {id : Option String} (h : Record.Known f id) : Plain (Record.idText f id) := by
  have hstage : Stage.Reported f (id.map fun hex => (.regular, hex)) := by
    intro mode hex hsome
    cases id with
    | none => cases hsome
    | some hex' =>
      obtain ⟨-, rfl⟩ := Prod.mk.inj (Option.some.inj hsome)
      exact (h hex' rfl).1
  have hplain := plain_id hstage
  cases id with
  | none => exact hplain
  | some hex => exact hplain

theorem plain_status (s : DeltaStatus) : s.byte ≠ space ∧ s.byte ≠ 0 := by
  cases s <;> decide

theorem deltaFields_header (h : r.Printed f) : deltaFields (r.header f) =
    .ok ([Record.modeText r.oldMode, Record.modeText r.newMode, Record.idText f r.oldId,
      Record.idText f r.newId], r.status.byte) := by
  have hplain : ∀ d ∈ [Record.modeText r.oldMode, Record.modeText r.newMode,
      Record.idText f r.oldId, Record.idText f r.newId], space ∉ d := by
    simp only [List.forall_mem_cons]
    exact ⟨(plain_modeText _).1, (plain_modeText _).1, (plain_idText h.oldId).1,
      (plain_idText h.newId).1, fun d hd => absurd hd List.not_mem_nil⟩
  have hlast : space ∉ r.status.byte :: r.score := by
    intro hmem
    rcases List.mem_cons.mp hmem with heq | hmem
    · exact (plain_status r.status).1 heq.symm
    · exact h.score.1 hmem
  have hcolon : ¬ ascii ':' ≠ ascii ':' := not_not_intro rfl
  rw [Record.header, deltaFields, if_neg hcolon, Splits.splitOn_terminated_append hplain,
    List.splitOn_eq_singleton hlast]
  rfl

theorem deltaStatus_byte (s : DeltaStatus) : deltaStatus s.byte = s.name := by
  cases s <;> rfl

theorem moves_byte (s : DeltaStatus) :
    (s.byte = ascii 'R' ∨ s.byte = ascii 'C') ↔ s.moves = true := by
  cases s <;> decide

theorem deltaRow_record (h : r.Printed f) (old : List UInt8)
    (hold : old = r.source.getD r.path) :
    deltaRow [Record.modeText r.oldMode, Record.modeText r.newMode, Record.idText f r.oldId,
      Record.idText f r.newId] r.status.byte old r.path = .ok (r.delta f) := by
  rw [deltaRow, optionalOid_id h.oldId, optionalOid_id h.newId]
  simp only [bind, Except.bind, parseOctal_mode, deltaStatus_byte, hold]
  rfl

/-- One record and the rows of the others. -/
theorem deltasFrom_print (h : r.Printed f) (parts : List (List UInt8)) :
    deltasFrom (r.print f ++ parts) = (deltasFrom parts).map (r.delta f :: ·) := by
  have hmoved := h.moved
  cases hsource : r.source with
  | none =>
    rw [hsource] at hmoved
    have hcode : ¬ (r.status.byte = ascii 'R' ∨ r.status.byte = ascii 'C') := by
      rw [moves_byte, ← hmoved]
      exact Bool.false_ne_true
    have hrow := deltaRow_record h r.path (by rw [hsource]; rfl)
    have hprint : r.print f ++ parts = r.header f :: r.path :: parts := by
      rw [Record.print, hsource]
      rfl
    rw [hprint]
    conv_lhs => unfold deltasFrom
    rw [deltaFields_header h]
    simp only [bind, Except.bind, if_neg hcode, hrow]
    cases deltasFrom parts <;> rfl
  | some old =>
    rw [hsource] at hmoved
    have hcode : r.status.byte = ascii 'R' ∨ r.status.byte = ascii 'C' := by
      rw [moves_byte, ← hmoved]
      rfl
    have hrow := deltaRow_record h old (by rw [hsource]; rfl)
    have hprint : r.print f ++ parts = r.header f :: old :: r.path :: parts := by
      rw [Record.print, hsource]
      rfl
    rw [hprint]
    conv_lhs => unfold deltasFrom
    rw [deltaFields_header h]
    simp only [bind, Except.bind, if_pos hcode, hrow]
    cases deltasFrom parts <;> rfl

theorem print_printable (h : r.Printed f) : ∀ p ∈ r.print f, Printable p := by
  intro p hp
  rcases List.mem_cons.mp hp with rfl | hp
  · refine ⟨List.cons_ne_nil _ _, ?_⟩
    have hplain : ∀ d ∈ [Record.modeText r.oldMode, Record.modeText r.newMode,
        Record.idText f r.oldId, Record.idText f r.newId], Plain d := by
      simp only [List.forall_mem_cons]
      exact ⟨plain_modeText _, plain_modeText _, plain_idText h.oldId, plain_idText h.newId,
        fun d hd => absurd hd List.not_mem_nil⟩
    have hcolon : (0 : UInt8) ≠ ascii ':' := by decide
    rw [Record.header]
    intro hmem
    rcases List.mem_cons.mp hmem with heq | hmem
    · exact hcolon heq
    · rcases List.mem_append.mp hmem with hmem | hmem
      · exact Plain.terminated hplain hmem
      · rcases List.mem_cons.mp hmem with heq | hmem
        · exact (plain_status r.status).2 heq.symm
        · exact h.score.2 hmem
  · rcases List.mem_append.mp hp with hp | hp
    · exact h.source p (Option.mem_toList.mp hp)
    · rw [List.mem_singleton.mp hp]
      exact h.path

/-- The rows of the records. -/
theorem deltas_rawText (h : ∀ r ∈ rs, r.Printed f) :
    deltas (rawText f rs) = .ok (rs.map (Record.delta f)) := by
  have hall : ∀ p ∈ rs.flatMap (Record.print f), Printable p := by
    intro p hp
    obtain ⟨r, hr, hp⟩ := List.mem_flatMap.mp hp
    exact print_printable (h r hr) p hp
  have hrecords : records (rawText f rs) = rs.flatMap (Record.print f) :=
    Splits.records_terminated (fun p hp => (hall p hp).2) fun p hp => (hall p hp).1
  rw [deltas, hrecords]
  clear hrecords hall
  induction rs with
  | nil => rfl
  | cons r rs ih =>
    rw [List.flatMap_cons, deltasFrom_print (h r List.mem_cons_self),
      ih fun d hd => h d (List.mem_cons_of_mem r hd)]
    rfl

/-! ## The sections -/

theorem startsWith_head {line : List UInt8}
    (h : line = [] ∨ ∃ b bs, line = b :: bs ∧ b ≠ ascii 'd') :
    startsWith (asciis "diff --git ") (line ++ [newline]) = false := by
  rcases h with rfl | ⟨b, bs, rfl, hb⟩
  · decide
  · exact startsWith_cons hb.symm

/-- No line of a hunk begins a section. -/
theorem hunk_begins {h : SourceHunk} :
    ∀ l ∈ h.print, startsWith (asciis "diff --git ") (l ++ [newline]) = false := by
  intro l hl
  rcases List.mem_cons.mp hl with rfl | hl
  · rfl
  · obtain ⟨line, -, hl⟩ := List.mem_flatMap.mp hl
    apply startsWith_head
    rw [SourceLine.print] at hl
    split at hl
    · exact .inl (List.mem_singleton.mp hl)
    · rcases List.mem_cons.mp hl with rfl | hl
      · exact .inr ⟨_, _, rfl, by cases line.origin <;> decide⟩
      · split at hl
        · exact absurd hl List.not_mem_nil
        · rw [List.mem_singleton.mp hl]
          exact .inr ⟨ascii '\\', _, rfl, by decide⟩

theorem foldl_rest : ∀ {ls : List (List UInt8)} (done : List (List UInt8)) (cur : List UInt8),
    (∀ l ∈ ls, startsWith (asciis "diff --git ") (l ++ [newline]) = false) →
      (ls.map (· ++ [newline])).foldl sectionStep (done, some cur) =
        (done, some (cur ++ Splits.terminated newline ls))
  | [], done, cur, _ => by
    show (done, some cur) = (done, some (cur ++ []))
    rw [List.append_nil]
  | l :: ls, done, cur, h => by
    have hstep : sectionStep (done, some cur) (l ++ [newline]) =
        (done, some (cur ++ (l ++ [newline]))) := by
      rw [sectionStep, h l List.mem_cons_self]
      rfl
    rw [List.map_cons, List.foldl_cons, hstep,
      foldl_rest done _ fun d hd => h d (List.mem_cons_of_mem l hd), List.append_assoc]
    rfl

/-- A section follows what is done, and is the one that goes on. -/
theorem foldl_section {s : Section} (h : s.Begun)
    (acc : List (List UInt8) × Option (List UInt8)) :
    (s.lines.map (· ++ [newline])).foldl sectionStep acc =
      (acc.1 ++ acc.2.toList, some s.print) := by
  obtain ⟨name, ls, hhead, hls⟩ := h.begun
  have hlines : s.lines = (asciis "diff --git " ++ name) ::
      (ls ++ s.hunks.flatMap SourceHunk.print) := by
    rw [Section.lines, hhead]
    rfl
  have hbegin : sectionStep acc (asciis "diff --git " ++ name ++ [newline]) =
      (acc.1 ++ acc.2.toList, some (asciis "diff --git " ++ name ++ [newline])) := by
    rw [sectionStep, List.append_assoc]
    have hstart : startsWith (asciis "diff --git ") (asciis "diff --git " ++ (name ++ [newline])) =
        true := rfl
    rw [hstart]
    rfl
  have hrest : ∀ l ∈ ls ++ s.hunks.flatMap SourceHunk.print,
      startsWith (asciis "diff --git ") (l ++ [newline]) = false := by
    intro l hl
    rcases List.mem_append.mp hl with hl | hl
    · exact hls l hl
    · obtain ⟨h, -, hl⟩ := List.mem_flatMap.mp hl
      exact hunk_begins l hl
  rw [Section.print, hlines, List.map_cons, List.foldl_cons, hbegin, foldl_rest _ _ hrest]
  rfl

theorem foldl_sections : ∀ {ss : List Section} (acc : List (List UInt8) × Option (List UInt8)),
    (∀ s ∈ ss, s.Begun) →
      let (done, last) := ((ss.flatMap Section.lines).map (· ++ [newline])).foldl sectionStep acc
      done ++ last.toList = acc.1 ++ acc.2.toList ++ ss.map Section.print
  | [], acc, _ => by
    show acc.1 ++ acc.2.toList = acc.1 ++ acc.2.toList ++ []
    rw [List.append_nil]
  | s :: ss, acc, h => by
    rw [List.flatMap_cons, List.map_append, List.foldl_append,
      foldl_section (h s List.mem_cons_self)]
    have ih := foldl_sections (acc.1 ++ acc.2.toList, some s.print)
      fun t ht => h t (List.mem_cons_of_mem s ht)
    rw [Option.toList_some, List.append_assoc (acc.1 ++ acc.2.toList)] at ih
    exact ih

/-- The sections are those that were printed. -/
theorem sections_print {ss : List Section} (h : ∀ s ∈ ss, s.Begun) :
    sections (ss.flatMap Section.print) = ss.map Section.print := by
  have hbytes : ss.flatMap Section.print = Splits.terminated newline (ss.flatMap Section.lines) := by
    rw [Splits.terminated, List.flatMap_assoc]
    rfl
  have hplain : ∀ l ∈ ss.flatMap Section.lines, newline ∉ l := by
    intro l hl
    obtain ⟨s, hs, hl⟩ := List.mem_flatMap.mp hl
    exact print_notMem (h s hs).toPrinted l hl
  have hsplit := Splits.splitInclusive_terminated hplain []
  rw [List.append_nil, Splits.splitInclusive, List.append_nil] at hsplit
  rw [sections, hbytes, hsplit]
  exact foldl_sections ([], none) h

/-! ## Both together -/

variable {hash : Value → String}

/-- A file is that of its record: its row, and what its own section or sections show of it. -/
structure Record.Shown (f : ObjectFormat) (r : Record) (file : Delta × Patch) : Prop where
  delta : file.1 = r.delta f
  complete : r.joined.Complete file.2
  binary : file.2.binary = r.joined.binary

/-- A record has a section, and one more where the type of the file changes. -/
theorem length_sections (h : ∀ r ∈ rs, r.Printed f) :
    (rs.flatMap Record.sections).length = rs.length + rs.countP Record.typeChanged := by
  induction rs with
  | nil => rfl
  | cons r rs ih =>
    have hone : r.sections.length = 1 + if r.typeChanged then 1 else 0 := by
      rw [Record.sections, ← (h r List.mem_cons_self).two]
      cases r.second <;> rfl
    rw [List.flatMap_cons, List.length_append, hone, List.countP_cons, List.length_cons,
      ih fun d hd => h d (List.mem_cons_of_mem r hd)]
    omega

theorem sections_single (h : r.Printed f) (hr : r.typeChanged = false) : r.sections = [r.first] := by
  have htwo := h.two
  rw [hr] at htwo
  rw [Record.sections, Option.isSome_eq_false_iff.mp htwo |> Option.isNone_iff_eq_none.mp]
  rfl

theorem joined_single (h : r.Printed f) (hr : r.typeChanged = false) : r.joined = r.first := by
  rw [Record.joined, sections_single h hr]
  simp only [List.flatMap_cons, List.flatMap_nil, List.append_nil]

theorem first_begun (h : r.Printed f) : r.first.Begun := h.sections r.first List.mem_cons_self

theorem mapM_all {α β : Type} {g : α → Except Error β} {k : α → β} : ∀ {as : List α},
    (∀ a ∈ as, g a = .ok (k a)) → as.mapM g = .ok (as.map k)
  | [], _ => rfl
  | a :: as, h => by
    rw [List.mapM_cons, h a List.mem_cons_self,
      mapM_all fun b hb => h b (List.mem_cons_of_mem a hb)]
    rfl

/-- Where a file changes its type, the comparison is not read. -/
theorem read_failure (h : ∀ r ∈ rs, r.Printed f) {context : Nat} (hcontext : context ≤ 100)
    (hr : ¬ ∀ r ∈ rs, r.typeChanged = false) :
    read hash (rawText f rs) (patchText rs) context = .error failure := by
  have hlen : (rs.flatMap Record.sections).length ≠ rs.length := by
    rw [length_sections h]
    intro heq
    have hzero : rs.countP Record.typeChanged = 0 := by omega
    exact hr fun r hmem => eq_false_of_ne_true (List.countP_eq_zero.mp hzero r hmem)
  have hbegun : ∀ s ∈ rs.flatMap Record.sections, s.Begun := by
    intro s hs
    obtain ⟨r, hmem, hs⟩ := List.mem_flatMap.mp hs
    exact (h r hmem).sections s hs
  have hne : (rs.map (Record.delta f)).isEmpty = false := by
    cases rs with
    | nil => exact absurd (fun r hmem => absurd hmem List.not_mem_nil) hr
    | cons r rs => rfl
  rw [read, if_neg (Nat.not_lt.mpr hcontext), deltas_rawText h]
  simp only [bind, Except.bind, hne, Bool.false_eq_true, if_false, patchText,
    sections_print hbegun, List.length_map, if_pos hlen]

/-- Where none does, every record has its own section. -/
theorem read_ok (h : ∀ r ∈ rs, r.Printed f) {context : Nat} (hcontext : context ≤ 100)
    (hr : ∀ r ∈ rs, r.typeChanged = false) :
    read hash (rawText f rs) (patchText rs) context =
      .ok (rs.map fun r => (r.delta f, r.first.read hash (r.delta f).json)) := by
  have hsections : rs.flatMap Record.sections = rs.map Record.first := by
    rw [List.map_eq_flatMap]
    exact List.flatMap_congr fun r hmem => sections_single (h r hmem) (hr r hmem)
  have hbegun : ∀ s ∈ rs.map Record.first, s.Begun := by
    intro s hs
    obtain ⟨r, hmem, rfl⟩ := List.mem_map.mp hs
    exact first_begun (h r hmem)
  rw [read, if_neg (Nat.not_lt.mpr hcontext), deltas_rawText h, patchText, hsections,
    sections_print hbegun]
  cases rs with
  | nil => rfl
  | cons r rs =>
    have hlen : ¬ (((r :: rs).map Record.first).map Section.print).length ≠
        ((r :: rs).map (Record.delta f)).length := by
      simp only [List.length_map, ne_eq, not_true_eq_false, not_false_eq_true]
    show (if _ then _ else _) = _
    rw [if_neg hlen, List.map_map, List.zip_map', List.mapM_map]
    apply mapM_all
    intro r' hmem
    show (do
      let p ← patch hash (r'.delta f).json r'.first.print
      Except.ok (r'.delta f, p)) = _
    rw [patch_print hash _ (first_begun (h r' hmem)).toPrinted]
    rfl

/-- **A comparison is read with every file's own patch exactly where no file changes its type,
    and no line is printed as a line feed alone.** -/
theorem read_matched_iff (h : ∀ r ∈ rs, r.Printed f) {context : Nat} (hcontext : context ≤ 100) :
    (∃ files, read hash (rawText f rs) (patchText rs) context = .ok files ∧
      List.Forall₂ (Record.Shown f) rs files) ↔
      (∀ r ∈ rs, r.typeChanged = false) ∧
        ∀ r ∈ rs, ∀ k ∈ r.first.hunks, ∀ l ∈ k.lines, l.bare = false := by
  constructor
  · rintro ⟨files, hread, hshown⟩
    by_cases hr : ∀ r ∈ rs, r.typeChanged = false
    · rw [read_ok h hcontext hr] at hread
      obtain rfl := Except.ok.inj hread
      refine ⟨hr, fun r hmem => ?_⟩
      have hone := List.forall₂_same.mp (List.forall₂_map_right_iff.mp hshown) r hmem
      have hcomplete := hone.complete
      rw [joined_single (h r hmem) (hr r hmem)] at hcomplete
      exact (complete_section (first_begun (h r hmem)).toPrinted).mp hcomplete
    · rw [read_failure h hcontext hr] at hread
      cases hread
  · rintro ⟨hr, hbare⟩
    refine ⟨_, read_ok h hcontext hr, ?_⟩
    apply List.forall₂_map_right_iff.mpr
    apply List.forall₂_same.mpr
    intro r hmem
    have hjoined := joined_single (h r hmem) (hr r hmem)
    refine ⟨rfl, ?_, ?_⟩
    · rw [hjoined]
      exact (complete_section (first_begun (h r hmem)).toPrinted).mpr (hbare r hmem)
    · rw [hjoined]
      rfl

/-! ## A file that becomes a link -/

/-- A section with one line that is deleted or added. -/
def lineSection (o : Origin) : Section where
  head := [asciis "diff --git a/x b/x"]
  hunks := [⟨1, 1, [], [⟨o, [97], true, false⟩]⟩]

theorem lineSection_begun (o : Origin) : (lineSection o).Begun where
  head l hl := by
    rw [List.mem_singleton.mp hl]
    exact ⟨by decide, by decide⟩
  hunks h hh := by
    have hone : 1 ≤ usizeMax := by decide
    rw [List.mem_singleton.mp hh]
    refine ⟨List.not_mem_nil, fun l hl => ?_, hone, hone, hone⟩
    rw [List.mem_singleton.mp hl]
    have htext : newline ∉ [97] := by decide
    exact ⟨htext, fun h => by cases h⟩
  begun := ⟨asciis "a/x b/x", [], rfl, fun l hl => absurd hl List.not_mem_nil⟩

def someId : String := "1111111111111111111111111111111111111111"

theorem someId_known : Record.Known .sha1 (some someId) := by
  intro hex hsome
  rw [← Option.some.inj hsome]
  exact ⟨by decide +kernel, by decide +kernel⟩

/-- A file that changes to a mode. -/
def changedTo (mode : Mode) (status : DeltaStatus) (second : Option Section) : Record :=
  ⟨some .regular, some mode, some someId, some someId, status, [], [120], none,
    lineSection .deleted, second⟩

theorem changedTo_printed {mode : Mode} {status : DeltaStatus} {second : Option Section}
    (hstatus : status.moves = false) (hsecond : ∀ s, second = some s → s.Begun)
    (htwo : second.isSome = (changedTo mode status second).typeChanged) :
    (changedTo mode status second).Printed .sha1 where
  oldId := someId_known
  newId := someId_known
  score := ⟨List.not_mem_nil, List.not_mem_nil⟩
  path := ⟨List.cons_ne_nil _ _, by show 0 ∉ [120]; decide⟩
  moved := hstatus.symm
  source _ hold := by cases hold
  sections s hs := by
    rcases List.mem_cons.mp hs with rfl | hs
    · exact lineSection_begun .deleted
    · exact hsecond s (Option.mem_toList.mp hs)
  two := htwo

theorem link_unread : (∀ r ∈ [changedTo .symlink .typeChanged (some (lineSection .added))],
    r.Printed .sha1) ∧ ∀ hash,
    ¬ ∃ files, read hash (rawText .sha1 [changedTo .symlink .typeChanged (some (lineSection .added))])
      (patchText [changedTo .symlink .typeChanged (some (lineSection .added))]) 3 = .ok files ∧
      List.Forall₂ (Record.Shown .sha1)
        [changedTo .symlink .typeChanged (some (lineSection .added))] files := by
  have hprinted : ∀ r ∈ [changedTo .symlink .typeChanged (some (lineSection .added))],
      r.Printed .sha1 := by
    intro r hr
    rw [List.mem_singleton.mp hr]
    refine changedTo_printed (by decide) (fun s hs => ?_) (by decide)
    rw [← Option.some.inj hs]
    exact lineSection_begun .added
  refine ⟨hprinted, ?_⟩
  rintro hash ⟨files, hread, -⟩
  have hchanged : ¬ ∀ r ∈ [changedTo .symlink .typeChanged (some (lineSection .added))],
      r.typeChanged = false := by
    intro hall
    have hone := hall _ List.mem_cons_self
    cases hone
  rw [read_failure hprinted (by decide) hchanged] at hread
  cases hread

theorem modeChange_matched : ∃ files,
    read (fun _ => "") (rawText .sha1 [changedTo .executable .modified none])
      (patchText [changedTo .executable .modified none]) 3 = .ok files ∧
    List.Forall₂ (Record.Shown .sha1) [changedTo .executable .modified none] files := by
  have hprinted : ∀ r ∈ [changedTo .executable .modified none], r.Printed .sha1 := by
    intro r hr
    rw [List.mem_singleton.mp hr]
    exact changedTo_printed (by decide) (fun s hs => by cases hs) (by decide)
  apply (read_matched_iff hprinted (by decide)).mpr
  constructor
  · intro r hr
    rw [List.mem_singleton.mp hr]
    decide
  · intro r hr k hk l hl
    rw [List.mem_singleton.mp hr] at hk
    rw [List.mem_singleton.mp hk] at hl
    rw [List.mem_singleton.mp hl]

end Porthop.Git.Cli
