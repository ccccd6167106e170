import Porthop.Git.Decoded
import Porthop.Git.Status

/- One list of changed files, printed in either format of `git status`, read by the summary and
   by the rows.

   What Git can report of a file is abstract here: a letter for the index and one for the
   worktree, a conflict, or a path it does not know. The counts of both readings agree for
   every list. That every row is in one of the groups they count holds where no file was only
   announced to the index: the worktree letter of such a file is the one that no table knows. -/
namespace Porthop.Git.Cli

open MessagePack (utf8)
open Response (ObjectFormat hexText oid_hexText utf8_hexText oidValue)

/-! ## What Git reports -/

/-- How a file differs. -/
inductive Letter where
  | modified
  | typeChanged
  | added
  | deleted
  | renamed
  | copied
  deriving DecidableEq

def Letter.byte : Letter → UInt8
  | modified => ascii 'M'
  | typeChanged => ascii 'T'
  | added => ascii 'A'
  | deleted => ascii 'D'
  | renamed => ascii 'R'
  | copied => ascii 'C'

/-- A difference from another path. -/
def Letter.moves (l : Letter) : Bool := l = renamed ∨ l = copied

inductive Conflict where
  | bothDeleted
  | addedByUs
  | deletedByThem
  | addedByThem
  | deletedByUs
  | bothAdded
  | bothModified
  deriving DecidableEq

def Conflict.code : Conflict → UInt8 × UInt8
  | bothDeleted => (ascii 'D', ascii 'D')
  | addedByUs => (ascii 'A', ascii 'U')
  | deletedByThem => (ascii 'U', ascii 'D')
  | addedByThem => (ascii 'U', ascii 'A')
  | deletedByUs => (ascii 'D', ascii 'U')
  | bothAdded => (ascii 'A', ascii 'A')
  | bothModified => (ascii 'U', ascii 'U')

inductive Mode where
  | regular
  | executable
  | symlink
  | gitlink
  deriving DecidableEq

def Mode.text : Mode → List UInt8
  | regular => "100644".toList.map ascii
  | executable => "100755".toList.map ascii
  | symlink => "120000".toList.map ascii
  | gitlink => "160000".toList.map ascii

/-- A side of a conflict, if the file is there. -/
abbrev Stage := Option (Mode × String)

/-- A changed file. What only the second format prints of it, and neither reading looks at, is
    a list of fields. -/
inductive Change where
  | changed (x y : Option Letter) (details : List (List UInt8)) (score path : List UInt8)
      (source : Option (List UInt8))
  | unmerged (kind : Conflict) (submodule worktree : List UInt8) (base ours theirs : Stage)
      (path : List UInt8)
  | untracked (path : List UInt8)

/-- A path is not empty and holds no NUL. -/
def Printable (path : List UInt8) : Prop := path ≠ [] ∧ 0 ∉ path

/-- A field before the path holds no blank and no NUL. -/
def Plain (field : List UInt8) : Prop := space ∉ field ∧ 0 ∉ field

def Stage.Reported (f : ObjectFormat) (s : Stage) : Prop :=
  ∀ mode hex, s = some (mode, hex) → hexText f.oidLength hex

/-- Git can report the letters: one at least, and in the worktree an addition only of a path
    that is announced to the index, which is none to the index or one that was deleted. -/
def Pairs (x y : Option Letter) : Prop :=
  (x ≠ none ∨ y ≠ none) ∧ (y = some .added → x = none ∨ x = some .deleted)

/-- Git can report the change: a second path is there exactly where one of the letters is of a
    rename or a copy. -/
def Change.Reported (f : ObjectFormat) : Change → Prop
  | .changed x y details score path source =>
    Pairs x y ∧ source.isSome = (x.any Letter.moves || y.any Letter.moves) ∧
      details.length = 6 ∧ (∀ d ∈ details, Plain d) ∧ Plain score ∧ Printable path ∧
      ∀ old, source = some old → Printable old
  | .unmerged _ submodule worktree base ours theirs path =>
    Plain submodule ∧ Plain worktree ∧ Stage.Reported f base ∧ Stage.Reported f ours ∧
      Stage.Reported f theirs ∧ Printable path
  | .untracked path => Printable path

/-! ## What Git prints -/

def letterV1 (l : Option Letter) : UInt8 := (l.map Letter.byte).getD space

def letterV2 (l : Option Letter) : UInt8 := (l.map Letter.byte).getD (ascii '.')

/-- The records of the first format. -/
def Change.printV1 : Change → List (List UInt8)
  | .changed x y _ _ path source => ([letterV1 x, letterV1 y, space] ++ path) :: source.toList
  | .unmerged kind _ _ _ _ _ path => [[kind.code.1, kind.code.2, space] ++ path]
  | .untracked path => [untrackedCode ++ space :: path]

def Stage.mode (s : Stage) : List UInt8 := (s.map fun m => m.1.text).getD noMode

def Stage.id (f : ObjectFormat) (s : Stage) : List UInt8 :=
  (s.map fun m => utf8 m.2).getD (List.replicate f.oidLength (ascii '0'))

/-- The records of the second format. -/
def Change.printV2 (f : ObjectFormat) : Change → List (List UInt8)
  | .changed x y details score path source =>
    match source with
    | none =>
      [Splits.terminated space ([[ascii '1'], [letterV2 x, letterV2 y]] ++ details) ++ path]
    | some old =>
      [Splits.terminated space ([[ascii '2'], [letterV2 x, letterV2 y]] ++ details ++ [score]) ++
        path, old]
  | .unmerged kind submodule worktree base ours theirs path =>
    [Splits.terminated space [[ascii 'u'], [kind.code.1, kind.code.2], submodule, Stage.mode base,
      Stage.mode ours, Stage.mode theirs, worktree, Stage.id f base, Stage.id f ours,
      Stage.id f theirs] ++ path]
  | .untracked path => [[ascii '?', space] ++ path]

def statusV1 (cs : List Change) : List UInt8 := Splits.terminated 0 (cs.flatMap Change.printV1)

def statusV2 (f : ObjectFormat) (cs : List Change) : List UInt8 :=
  Splits.terminated 0 (cs.flatMap (Change.printV2 f))

/-! ## The groups of a change -/

namespace Change

/-- A file of the last commit that the index only announces and the worktree lacks: the first
    format prints it as it prints a conflict. -/
def ambiguous : Change → Bool
  | .changed x y _ _ _ _ => x = some .deleted ∧ y = some .deleted
  | _ => false

/-- A file that is only announced to the index. -/
def announced : Change → Bool
  | .changed x y _ _ _ _ => x = none ∧ y = some .added
  | _ => false

def staged : Change → Bool
  | .changed x _ _ _ _ _ => x.isSome
  | _ => false

def unstaged : Change → Bool
  | .changed _ y _ _ _ _ => y.isSome ∧ y ≠ some .added
  | _ => false

def isUntracked : Change → Bool
  | .untracked _ => true
  | _ => false

def conflicted : Change → Bool
  | .unmerged .. => true
  | _ => false

/-- What a change adds to the counts of the summary. -/
def counted (c : Change) (k : Counts) : Counts where
  totalEntries := k.totalEntries + 1
  staged := k.staged + if c.staged && !c.ambiguous then 1 else 0
  unstaged := k.unstaged + if c.unstaged && !c.ambiguous then 1 else 0
  untracked := k.untracked + if c.isUntracked then 1 else 0
  conflicted := k.conflicted + if c.conflicted || c.ambiguous then 1 else 0

end Change

variable {f : ObjectFormat} {c : Change} {cs : List Change}

/-! ## The first format is read -/

theorem letterV1_cases (x : Option Letter) : letterV1 x ∈ space :: indexLetters := by
  cases x with
  | none => decide
  | some l => cases l <;> decide

theorem add_changed {x y : Option Letter} (h : Pairs x y) (details : List (List UInt8))
    (score path : List UInt8) (source : Option (List UInt8)) (k : Counts) :
    k.add (letterV1 x) (letterV1 y) = (Change.changed x y details score path source).counted k := by
  have hboth : ¬ (x = some .added ∧ y = some .added) := by
    rintro ⟨rfl, rfl⟩
    rcases h.2 rfl with h | h
    · cases h
    · cases h
  cases x with
  | none =>
    cases y with
    | none => exact absurd h.1 (by decide)
    | some l => cases l <;> rfl
  | some l =>
    cases y with
    | none => cases l <;> rfl
    | some m => cases l <;> cases m <;> first | rfl | exact absurd ⟨rfl, rfl⟩ hboth

theorem moved_letterV1 (x y : Option Letter) :
    moved (letterV1 x) (letterV1 y) = (x.any Letter.moves || y.any Letter.moves) := by
  cases x with
  | none =>
    cases y with
    | none => rfl
    | some m => cases m <;> rfl
  | some l =>
    cases y with
    | none => cases l <;> rfl
    | some m => cases l <;> cases m <;> rfl

theorem add_unmerged (kind : Conflict) (submodule worktree : List UInt8)
    (base ours theirs : Stage) (path : List UInt8) (k : Counts) :
    k.add kind.code.1 kind.code.2 =
      (Change.unmerged kind submodule worktree base ours theirs path).counted k := by
  cases kind <;> rfl

theorem moved_code (kind : Conflict) : moved kind.code.1 kind.code.2 = false := by
  cases kind <;> rfl

theorem summaryFrom_row (k : Counts) (x y b : UInt8) (bs : List UInt8) (rs : List (List UInt8)) :
    summaryFrom k ((x :: y :: space :: b :: bs) :: rs) =
      if moved x y then
        match rs with
        | [] => .error failure
        | _ :: rs => summaryFrom (k.add x y) rs
      else summaryFrom (k.add x y) rs := by
  cases rs <;> rfl

theorem summaryFrom_print (h : c.Reported f) (k : Counts) (rs : List (List UInt8)) :
    summaryFrom k (c.printV1 ++ rs) = summaryFrom (c.counted k) rs := by
  cases c with
  | changed x y details score path source =>
    obtain ⟨hpair, hsource, -, -, -, hpath, -⟩ := h
    obtain ⟨b, bs, rfl⟩ := List.exists_cons_of_ne_nil hpath.1
    show summaryFrom k ((letterV1 x :: letterV1 y :: space :: b :: bs) :: (source.toList ++ rs)) = _
    rw [summaryFrom_row, moved_letterV1, ← hsource,
      ← add_changed hpair details score (b :: bs) source]
    cases source with
    | none => rfl
    | some old => rfl
  | unmerged kind submodule worktree base ours theirs path =>
    obtain ⟨-, -, -, -, -, hpath⟩ := h
    obtain ⟨b, bs, rfl⟩ := List.exists_cons_of_ne_nil hpath.1
    show summaryFrom k ((kind.code.1 :: kind.code.2 :: space :: b :: bs) :: rs) = _
    rw [summaryFrom_row, moved_code,
      ← add_unmerged kind submodule worktree base ours theirs (b :: bs)]
    rfl
  | untracked path =>
    obtain ⟨b, bs, rfl⟩ := List.exists_cons_of_ne_nil h.1
    show summaryFrom k ((ascii '?' :: ascii '?' :: space :: b :: bs) :: rs) = _
    rw [summaryFrom_row]
    rfl

theorem summaryFrom_all (h : ∀ c ∈ cs, c.Reported f) (k : Counts) :
    summaryFrom k (cs.flatMap Change.printV1) = .ok (cs.foldl (fun k c => c.counted k) k) := by
  induction cs generalizing k with
  | nil => rfl
  | cons c cs ih =>
    rw [List.flatMap_cons, summaryFrom_print (h c List.mem_cons_self),
      ih fun d hd => h d (List.mem_cons_of_mem c hd)]
    rfl

theorem counted_all (k : Counts) : cs.foldl (fun k c => c.counted k) k =
    { totalEntries := k.totalEntries + cs.length
      staged := k.staged + cs.countP fun c => c.staged && !c.ambiguous
      unstaged := k.unstaged + cs.countP fun c => c.unstaged && !c.ambiguous
      untracked := k.untracked + cs.countP Change.isUntracked
      conflicted := k.conflicted + cs.countP fun c => c.conflicted || c.ambiguous } := by
  induction cs generalizing k with
  | nil => rfl
  | cons c cs ih =>
    rw [List.foldl_cons, ih]
    simp only [Change.counted, List.length_cons, List.countP_cons, Counts.mk.injEq]
    refine ⟨?_, ?_, ?_, ?_, ?_⟩ <;> omega

/-! ## The second format is read -/

def Stage.value (f : ObjectFormat) (path : List UInt8) : Stage → Value
  | none => .null
  | some (mode, hex) => .obj [("mode", .num ((parseOctal mode.text).getD 0)),
      ("oid", oidValue f hex), ("path", wirePath path)]

/-- The row of a change. -/
def Change.row (f : ObjectFormat) : Change → StatusRow
  | .changed x y _ _ path source =>
    ⟨path, some (source.getD path), flags (letterV2 x) (letterV2 y), .null⟩
  | .unmerged _ _ _ base ours theirs path =>
    ⟨path, some path, 32768, .obj [("base", Stage.value f path base),
      ("ours", Stage.value f path ours), ("theirs", Stage.value f path theirs)]⟩
  | .untracked path => ⟨path, none, 128, .null⟩

theorem side_stage {s : Stage} (h : Stage.Reported f s) (path : List UInt8) :
    side (Stage.mode s) (Stage.id f s) path = .ok (Stage.value f path s) := by
  cases s with
  | none => rfl
  | some m =>
    obtain ⟨mode, hex⟩ := m
    have hid : oid (utf8 hex) = .ok (oidValue f hex) := oid_hexText (h mode hex rfl)
    show side mode.text (utf8 hex) path = _
    rw [side, hid]
    cases mode <;> rfl

theorem plain_letter (l : Option Letter) : letterV2 l ≠ space ∧ letterV2 l ≠ 0 := by
  cases l with
  | none => decide
  | some l => cases l <;> decide

theorem plain_letters (x y : Option Letter) : Plain [letterV2 x, letterV2 y] := by
  have hx := plain_letter x
  have hy := plain_letter y
  constructor
  · simp [hx.1.symm, hy.1.symm]
  · simp [hx.2.symm, hy.2.symm]

theorem plain_code (kind : Conflict) : Plain [kind.code.1, kind.code.2] := by
  cases kind <;> exact ⟨by decide, by decide⟩

theorem plain_mode (s : Stage) : Plain (Stage.mode s) := by
  cases s with
  | none => exact ⟨by decide, by decide⟩
  | some m =>
    show Plain m.1.text
    cases m.1 <;> exact ⟨by decide, by decide⟩

theorem plain_id {s : Stage} (h : Stage.Reported f s) : Plain (Stage.id f s) := by
  have hspace : ¬ (asciiHexDigit space = true) := by decide
  have hzero : ¬ (asciiHexDigit 0 = true) := by decide
  cases s with
  | none =>
    constructor
    · exact fun hmem => absurd (List.eq_of_mem_replicate hmem) (by decide)
    · exact fun hmem => absurd (List.eq_of_mem_replicate hmem) (by decide)
  | some m =>
    obtain ⟨mode, hex⟩ := m
    obtain ⟨-, hdigits⟩ := utf8_hexText (h mode hex rfl)
    exact ⟨fun hmem => hspace (hdigits _ hmem), fun hmem => hzero (hdigits _ hmem)⟩

/-- A record of fields and a path is split again. -/
theorem fields_terminated {fs : List (List UInt8)} (h : ∀ d ∈ fs, Plain d) {path : List UInt8}
    {n : Nat} (hn : fs.length + 1 = n) :
    fields (Splits.terminated space fs ++ path) n = .ok (fs ++ [path]) := by
  rw [fields, ← hn, Splits.splitn_terminated fun d hd => (h d hd).1]
  simp

theorem rowOf_ordinary {rest path m d₁ d₂ d₃ d₄ d₅ d₆ : List UInt8} {x y : UInt8}
    (h : fields (ascii '1' :: rest) 9 = .ok [m, [x, y], d₁, d₂, d₃, d₄, d₅, d₆, path]) :
    rowOf (ascii '1' :: rest) none = .ok ⟨path, some path, flags x y, .null⟩ := by
  have hmark : ¬ (ascii '1' = ascii '?') := by decide
  rw [rowOf, if_neg hmark, if_pos rfl, h]
  rfl

theorem rowOf_moved {rest path old m d₁ d₂ d₃ d₄ d₅ d₆ score : List UInt8} {x y : UInt8}
    (h : fields (ascii '2' :: rest) 10 = .ok [m, [x, y], d₁, d₂, d₃, d₄, d₅, d₆, score, path]) :
    rowOf (ascii '2' :: rest) (some old) = .ok ⟨path, some old, flags x y, .null⟩ := by
  have hmark : ¬ (ascii '2' = ascii '?') := by decide
  have hone : ¬ (ascii '2' = ascii '1') := by decide
  rw [rowOf, if_neg hmark, if_neg hone, if_pos rfl, h]
  rfl

theorem rowOf_unmerged {rest path m submodule worktree b o t bi oi ti : List UInt8} {x y : UInt8}
    (h : fields (ascii 'u' :: rest) 11 =
      .ok [m, [x, y], submodule, b, o, t, worktree, bi, oi, ti, path])
    {base ours theirs : Value} (hbase : side b bi path = .ok base)
    (hours : side o oi path = .ok ours) (htheirs : side t ti path = .ok theirs) :
    rowOf (ascii 'u' :: rest) none = .ok ⟨path, some path, 32768,
      .obj [("base", base), ("ours", ours), ("theirs", theirs)]⟩ := by
  have hmark : ¬ (ascii 'u' = ascii '?') := by decide
  have hone : ¬ (ascii 'u' = ascii '1') := by decide
  have htwo : ¬ (ascii 'u' = ascii '2') := by decide
  rw [rowOf, if_neg hmark, if_neg hone, if_neg htwo, if_pos rfl, h]
  simp only [bind, Except.bind, hbase, hours, htheirs]

/-- One record and the rows of the others. -/
theorem captureFrom_one {mark : UInt8} {rest : List UInt8} {row : StatusRow}
    (hmark : mark ≠ ascii '2') (h : rowOf (mark :: rest) none = .ok row)
    (rs : List (List UInt8)) :
    captureFrom ((mark :: rest) :: rs) = (captureFrom rs).map (row :: ·) := by
  have hhead : ¬ (mark :: rest).head? = some (ascii '2') := fun heq => hmark (Option.some.inj heq)
  have hstep : captureFrom ((mark :: rest) :: rs) = (do
      let row ← rowOf (mark :: rest) none
      let rows ← captureFrom rs
      .ok (row :: rows)) := by
    cases rs <;> exact if_neg hhead
  rw [hstep, h]
  cases captureFrom rs <;> rfl

theorem captureFrom_two {rest old : List UInt8} {row : StatusRow}
    (h : rowOf (ascii '2' :: rest) (some old) = .ok row) (rs : List (List UInt8)) :
    captureFrom ((ascii '2' :: rest) :: old :: rs) = (captureFrom rs).map (row :: ·) := by
  have hstep : captureFrom ((ascii '2' :: rest) :: old :: rs) = (do
      let row ← rowOf (ascii '2' :: rest) (some old)
      let rows ← captureFrom rs
      .ok (row :: rows)) := rfl
  rw [hstep, h]
  cases captureFrom rs <;> rfl

theorem captureFrom_print (h : c.Reported f) (rs : List (List UInt8)) :
    captureFrom (c.printV2 f ++ rs) = (captureFrom rs).map (c.row f :: ·) := by
  cases c with
  | changed x y details score path source =>
    obtain ⟨-, -, hlen, hdetails, hscore, -, -⟩ := h
    match details, hlen with
    | [d₁, d₂, d₃, d₄, d₅, d₆], _ =>
      have hletters := plain_letters x y
      cases source with
      | none =>
        have hplain : ∀ d ∈ [[ascii '1'], [letterV2 x, letterV2 y]] ++ [d₁, d₂, d₃, d₄, d₅, d₆],
            Plain d := by
          intro d hd
          rcases List.mem_append.mp hd with hd | hd
          · rcases List.mem_pair.mp hd with rfl | rfl
            · exact ⟨by decide, by decide⟩
            · exact hletters
          · exact hdetails d hd
        apply captureFrom_one (by decide)
        exact rowOf_ordinary (fields_terminated hplain rfl)
      | some old =>
        have hplain : ∀ d ∈ [[ascii '2'], [letterV2 x, letterV2 y]] ++ [d₁, d₂, d₃, d₄, d₅, d₆] ++
            [score], Plain d := by
          intro d hd
          rcases List.mem_append.mp hd with hd | hd
          · rcases List.mem_append.mp hd with hd | hd
            · rcases List.mem_pair.mp hd with rfl | rfl
              · exact ⟨by decide, by decide⟩
              · exact hletters
            · exact hdetails d hd
          · rw [List.mem_singleton.mp hd]
            exact hscore
        apply captureFrom_two
        exact rowOf_moved (fields_terminated hplain rfl)
  | unmerged kind submodule worktree base ours theirs path =>
    obtain ⟨hsubmodule, hworktree, hbase, hours, htheirs, -⟩ := h
    have hplain : ∀ d ∈ [[ascii 'u'], [kind.code.1, kind.code.2], submodule, Stage.mode base,
        Stage.mode ours, Stage.mode theirs, worktree, Stage.id f base, Stage.id f ours,
        Stage.id f theirs], Plain d := by
      simp only [List.forall_mem_cons]
      exact ⟨⟨by decide, by decide⟩, plain_code kind, hsubmodule, plain_mode base, plain_mode ours,
        plain_mode theirs, hworktree, plain_id hbase, plain_id hours, plain_id htheirs,
        fun d hd => absurd hd List.not_mem_nil⟩
    apply captureFrom_one (by decide)
    exact rowOf_unmerged (fields_terminated hplain rfl) (side_stage hbase path)
      (side_stage hours path) (side_stage htheirs path)
  | untracked path =>
    apply captureFrom_one (by decide)
    rfl

theorem captureFrom_all (h : ∀ c ∈ cs, c.Reported f) :
    captureFrom (cs.flatMap (Change.printV2 f)) = .ok (cs.map (Change.row f)) := by
  induction cs with
  | nil => rfl
  | cons c cs ih =>
    rw [List.flatMap_cons, captureFrom_print (h c List.mem_cons_self),
      ih fun d hd => h d (List.mem_cons_of_mem c hd)]
    rfl

/-! ## Both readings -/

theorem Plain.terminated {fs : List (List UInt8)} (h : ∀ d ∈ fs, Plain d) :
    0 ∉ Splits.terminated space fs := by
  intro hmem
  obtain ⟨d, hd, hzero⟩ := List.mem_flatMap.mp hmem
  rcases List.mem_append.mp hzero with hzero | hzero
  · exact (h d hd).2 hzero
  · exact absurd (List.mem_singleton.mp hzero) (by decide)

/-- A record is not empty and holds no NUL, like a path. -/
theorem printable_append {bs path : List UInt8} (hbs : 0 ∉ bs) (hpath : Printable path) :
    Printable (bs ++ path) :=
  ⟨fun hnil => hpath.1 (List.append_eq_nil_iff.mp hnil).2,
    fun hmem => (List.mem_append.mp hmem).elim hbs hpath.2⟩

theorem letterV1_ne (x : Option Letter) : letterV1 x ≠ 0 := by
  cases x with
  | none => decide
  | some l => cases l <;> decide

theorem printV1_printable (h : c.Reported f) : ∀ r ∈ c.printV1, Printable r := by
  intro r hr
  cases c with
  | changed x y details score path source =>
    obtain ⟨-, -, -, -, -, hpath, hold⟩ := h
    rcases List.mem_cons.mp hr with rfl | hr
    · apply printable_append _ hpath
      have hzero : (0 : UInt8) ≠ space := by decide
      simp [(letterV1_ne x).symm, (letterV1_ne y).symm, hzero]
    · exact hold r (Option.mem_toList.mp hr)
  | unmerged kind submodule worktree base ours theirs path =>
    obtain ⟨-, -, -, -, -, hpath⟩ := h
    obtain rfl := List.mem_singleton.mp hr
    apply printable_append _ hpath
    cases kind <;> decide
  | untracked path =>
    obtain rfl := List.mem_singleton.mp hr
    have hmark : Printable ((untrackedCode ++ [space]) ++ path) := printable_append (by decide) h
    exact hmark

theorem printV2_printable (h : c.Reported f) : ∀ r ∈ c.printV2 f, Printable r := by
  intro r hr
  cases c with
  | changed x y details score path source =>
    obtain ⟨-, -, -, hdetails, hscore, hpath, hold⟩ := h
    have hletters := plain_letters x y
    have hplain : ∀ mark : UInt8, mark ≠ space → mark ≠ 0 →
        ∀ d ∈ [[mark], [letterV2 x, letterV2 y]] ++ details ++ [score], Plain d := by
      intro mark hspace hzero d hd
      rcases List.mem_append.mp hd with hd | hd
      · rcases List.mem_append.mp hd with hd | hd
        · rcases List.mem_pair.mp hd with rfl | rfl
          · exact ⟨by simp [hspace.symm], by simp [hzero.symm]⟩
          · exact hletters
        · exact hdetails d hd
      · rw [List.mem_singleton.mp hd]
        exact hscore
    cases source with
    | none =>
      obtain rfl := List.mem_singleton.mp hr
      apply printable_append _ hpath
      exact Plain.terminated fun d hd =>
        hplain (ascii '1') (by decide) (by decide) d (List.mem_append_left _ hd)
    | some old =>
      rcases List.mem_pair.mp hr with rfl | rfl
      · exact printable_append
          (Plain.terminated (hplain (ascii '2') (by decide) (by decide))) hpath
      · exact hold _ rfl
  | unmerged kind submodule worktree base ours theirs path =>
    obtain ⟨hsubmodule, hworktree, hbase, hours, htheirs, hpath⟩ := h
    obtain rfl := List.mem_singleton.mp hr
    apply printable_append _ hpath
    apply Plain.terminated
    simp only [List.forall_mem_cons]
    exact ⟨⟨by decide, by decide⟩, plain_code kind, hsubmodule, plain_mode base, plain_mode ours,
      plain_mode theirs, hworktree, plain_id hbase, plain_id hours, plain_id htheirs,
      fun d hd => absurd hd List.not_mem_nil⟩
  | untracked path =>
    obtain rfl := List.mem_singleton.mp hr
    have hmark : 0 ∉ [ascii '?', space] := by decide
    exact printable_append hmark h

theorem records_print {print : Change → List (List UInt8)}
    (h : ∀ c ∈ cs, ∀ r ∈ print c, Printable r) :
    records (Splits.terminated 0 (cs.flatMap print)) = cs.flatMap print := by
  have hall : ∀ r ∈ cs.flatMap print, Printable r := by
    intro r hr
    obtain ⟨c, hc, hrc⟩ := List.mem_flatMap.mp hr
    exact h c hc r hrc
  exact Splits.records_terminated (fun r hr => (hall r hr).2) fun r hr => (hall r hr).1

/-- What the summary counts. -/
theorem summary_statusV1 (h : ∀ c ∈ cs, c.Reported f) : summary (statusV1 cs) = .ok
    { totalEntries := cs.length
      staged := cs.countP fun c => c.staged && !c.ambiguous
      unstaged := cs.countP fun c => c.unstaged && !c.ambiguous
      untracked := cs.countP Change.isUntracked
      conflicted := cs.countP fun c => c.conflicted || c.ambiguous } := by
  rw [summary, statusV1, records_print fun c hc => printV1_printable (h c hc),
    summaryFrom_all h, counted_all]
  simp only [Nat.zero_add]

/-- The rows are those of the changes, in some order. -/
theorem capture_statusV2 (h : ∀ c ∈ cs, c.Reported f) : ∃ rows,
    capture (statusV2 f cs) = .ok rows ∧ rows.Perm (cs.map fun c => (c.row f).json) := by
  rw [capture, statusV2, records_print fun c hc => printV2_printable (h c hc),
    captureFrom_all h]
  refine ⟨_, rfl, ?_⟩
  have hmap : (cs.map fun c => (c.row f).json) = (cs.map (Change.row f)).map StatusRow.json :=
    by simp only [List.map_map, Function.comp_def]
  rw [hmap]
  exact (List.mergeSort_perm _ _).map StatusRow.json

/-! ## The groups of a row -/

theorem inGroup_json (r : StatusRow) :
    inGroup "staged" r.json = decide (r.bits &&& 31 ≠ 0) ∧
      inGroup "unstaged" r.json = decide (r.bits &&& 3840 ≠ 0) ∧
      inGroup "untracked" r.json = decide (r.bits &&& 128 ≠ 0) ∧
      inGroup "conflicted" r.json = decide (r.bits &&& 32768 ≠ 0) := ⟨rfl, rfl, rfl, rfl⟩

/-- A row is in the groups of its change. -/
theorem inGroup_row (c : Change) :
    inGroup "staged" (c.row f).json = c.staged ∧
      inGroup "unstaged" (c.row f).json = c.unstaged ∧
      inGroup "untracked" (c.row f).json = c.isUntracked ∧
      inGroup "conflicted" (c.row f).json = c.conflicted := by
  obtain ⟨hstaged, hunstaged, huntracked, hconflicted⟩ := inGroup_json (c.row f)
  rw [hstaged, hunstaged, huntracked, hconflicted]
  cases c with
  | changed x y details score path source =>
    show decide (flags (letterV2 x) (letterV2 y) &&& 31 ≠ 0) = x.isSome ∧
      decide (flags (letterV2 x) (letterV2 y) &&& 3840 ≠ 0) =
        decide (y.isSome ∧ y ≠ some .added) ∧
      decide (flags (letterV2 x) (letterV2 y) &&& 128 ≠ 0) = false ∧
      decide (flags (letterV2 x) (letterV2 y) &&& 32768 ≠ 0) = false
    cases x with
    | none =>
      cases y with
      | none => decide
      | some m => cases m <;> decide
    | some l =>
      cases y with
      | none => cases l <;> decide
      | some m => cases l <;> cases m <;> decide
  | unmerged kind submodule worktree base ours theirs path =>
    show decide ((32768 : UInt32) &&& 31 ≠ 0) = false ∧
      decide ((32768 : UInt32) &&& 3840 ≠ 0) = false ∧
      decide ((32768 : UInt32) &&& 128 ≠ 0) = false ∧ decide ((32768 : UInt32) &&& 32768 ≠ 0) = true
    decide
  | untracked path =>
    show decide ((128 : UInt32) &&& 31 ≠ 0) = false ∧ decide ((128 : UInt32) &&& 3840 ≠ 0) = false ∧
      decide ((128 : UInt32) &&& 128 ≠ 0) = true ∧ decide ((128 : UInt32) &&& 32768 ≠ 0) = false
    decide

/-- The counts of the groups over the rows are those over the changes. -/
theorem countP_rows {rows : List Value} (h : rows.Perm (cs.map fun c => (c.row f).json)) :
    rows.length = cs.length ∧
      rows.countP (inGroup "staged") = cs.countP Change.staged ∧
      rows.countP (inGroup "unstaged") = cs.countP Change.unstaged ∧
      rows.countP (inGroup "untracked") = cs.countP Change.isUntracked ∧
      rows.countP (inGroup "conflicted") = cs.countP Change.conflicted := by
  have hgroup : ∀ (group : String) (p : Change → Bool),
      (∀ c : Change, inGroup group (c.row f).json = p c) →
        rows.countP (inGroup group) = cs.countP p := by
    intro group p hp
    rw [h.countP_eq, List.countP_map]
    exact List.countP_congr fun c _ => by rw [Function.comp_apply, hp c]
  refine ⟨h.length_eq.trans (List.length_map _), ?_, ?_, ?_, ?_⟩
  · exact hgroup _ _ fun c => (inGroup_row c).1
  · exact hgroup _ _ fun c => (inGroup_row c).2.1
  · exact hgroup _ _ fun c => (inGroup_row c).2.2.1
  · exact hgroup _ _ fun c => (inGroup_row c).2.2.2

/-- A reported change is in a group, but for one that is only announced. -/
theorem grouped_iff (h : c.Reported f) :
    (c.staged || c.unstaged || c.isUntracked || c.conflicted) = true ↔ ¬ c.announced := by
  cases c with
  | changed x y details score path source =>
    obtain ⟨⟨hne, -⟩, -⟩ := h
    show (x.isSome || decide (y.isSome ∧ y ≠ some .added) || false || false) = true ↔
      ¬ decide (x = none ∧ y = some .added) = true
    cases x with
    | none =>
      cases y with
      | none => exact absurd hne (by decide)
      | some m => cases m <;> decide
    | some l =>
      have hleft : ¬ (some l = none ∧ y = some .added) := fun h => by cases h.1
      rw [decide_eq_false hleft]
      simp
  | unmerged kind submodule worktree base ours theirs path => exact iff_of_true rfl Bool.false_ne_true
  | untracked path => exact iff_of_true rfl Bool.false_ne_true

/-- Both readings tell the same of a list of changes: how many there are, how many are in each
    group, and each of them is in one. -/
def Agree (f : ObjectFormat) (cs : List Change) : Prop :=
  ∃ counts rows, summary (statusV1 cs) = .ok counts ∧ capture (statusV2 f cs) = .ok rows ∧
    counts.totalEntries = rows.length ∧
    counts.staged = rows.countP (inGroup "staged") ∧
    counts.unstaged = rows.countP (inGroup "unstaged") ∧
    counts.untracked = rows.countP (inGroup "untracked") ∧
    counts.conflicted = rows.countP (inGroup "conflicted") ∧
    ∀ row ∈ rows, (inGroup "staged" row || inGroup "unstaged" row || inGroup "untracked" row ||
      inGroup "conflicted" row) = true

/-- Files that look like conflicts are counted as such. -/
theorem countP_conflicted : (cs.countP fun c => c.conflicted || c.ambiguous) =
    cs.countP Change.conflicted + cs.countP Change.ambiguous := by
  induction cs with
  | nil => rfl
  | cons c cs ih =>
    simp only [List.countP_cons, ih]
    have hone : ¬ (c.conflicted = true ∧ c.ambiguous = true) := by
      cases c with
      | changed x y details score path source => exact fun h => Bool.noConfusion h.1
      | unmerged kind submodule worktree base ours theirs path => exact fun h => Bool.noConfusion h.2
      | untracked path => exact fun h => Bool.noConfusion h.1
    cases hc : c.conflicted with
    | false => simp only [Bool.false_or, Bool.false_eq_true, if_false]; omega
    | true =>
      have hamb : c.ambiguous = false := eq_false_of_ne_true fun h => hone ⟨hc, h⟩
      simp only [hamb, Bool.true_or, if_true, Bool.false_eq_true, if_false]
      omega

/-- **The two readings agree exactly where no file is only announced to the index**, with the
    worktree's own letter for it or as a file of the last commit that is gone. -/
theorem status_agreement (h : ∀ c ∈ cs, c.Reported f) :
    Agree f cs ↔ ∀ c ∈ cs, ¬ c.announced ∧ ¬ c.ambiguous := by
  obtain ⟨rows, hrows, hperm⟩ := capture_statusV2 h
  obtain ⟨hlen, hstaged, hunstaged, huntracked, hconflicted⟩ := countP_rows hperm
  have hmem : ∀ c ∈ cs, (c.row f).json ∈ rows := fun c hc =>
    hperm.mem_iff.mpr (List.mem_map_of_mem (f := fun c => (c.row f).json) hc)
  constructor
  · rintro ⟨counts, rows', hcounts, hrows', -, -, -, -, hconflict, hgroups⟩ c hc
    obtain rfl : rows = rows' := Except.ok.inj (hrows.symm.trans hrows')
    constructor
    · rw [← grouped_iff (h c hc)]
      have hgroup := hgroups _ (hmem c hc)
      obtain ⟨h₁, h₂, h₃, h₄⟩ := inGroup_row (f := f) c
      rwa [h₁, h₂, h₃, h₄] at hgroup
    · have hcount := Except.ok.inj ((summary_statusV1 h).symm.trans hcounts)
      rw [← hcount, hconflicted] at hconflict
      have hzero : cs.countP Change.ambiguous = 0 :=
        Nat.add_left_cancel (n := cs.countP Change.conflicted) (countP_conflicted.symm.trans hconflict)
      exact List.countP_eq_zero.mp hzero c hc
  · intro hall
    have hamb : ∀ p : Change → Bool,
        (cs.countP fun c => p c && !c.ambiguous) = cs.countP p := by
      intro p
      apply List.countP_congr
      intro c hc
      rw [eq_false_of_ne_true (hall c hc).2, Bool.not_false, Bool.and_true]
    refine ⟨_, rows, summary_statusV1 h, hrows, hlen.symm, ?_, ?_, huntracked.symm, ?_, ?_⟩
    · exact (hamb _).trans hstaged.symm
    · exact (hamb _).trans hunstaged.symm
    · rw [hconflicted, countP_conflicted, List.countP_eq_zero.mpr fun c hc => (hall c hc).2]
      rfl
    · intro row hrow
      obtain ⟨c, hc, rfl⟩ := List.mem_map.mp (hperm.mem_iff.mp hrow)
      obtain ⟨h₁, h₂, h₃, h₄⟩ := inGroup_row (f := f) c
      rw [h₁, h₂, h₃, h₄]
      exact (grouped_iff (h c hc)).mpr (hall c hc).1

/-- A file announced with `git add -N`. -/
def announcedFile : Change :=
  .changed none (some .added)
    [[78, 46, 46, 46], noMode, noMode, Mode.regular.text, List.replicate 40 48,
      List.replicate 40 48] [] [110, 101, 119] none

theorem announcedFile_reported : announcedFile.Reported .sha1 := by
  refine ⟨⟨.inr (by decide), fun _ => .inl rfl⟩, rfl, rfl, ?_, ⟨by decide, by decide⟩,
    ⟨by decide, by decide⟩, fun _ hold => by cases hold⟩
  simp only [List.forall_mem_cons]
  exact ⟨⟨by decide, by decide⟩, ⟨by decide, by decide⟩, ⟨by decide, by decide⟩,
    ⟨by decide, by decide⟩, ⟨by decide, by decide⟩, ⟨by decide, by decide⟩,
    fun d hd => absurd hd List.not_mem_nil⟩

theorem announcedFile_lost :
    (∀ c ∈ [announcedFile], c.Reported .sha1) ∧ ¬ Agree .sha1 [announcedFile] := by
  have hreported : ∀ c ∈ [announcedFile], c.Reported .sha1 := by
    intro c hc
    rw [List.mem_singleton.mp hc]
    exact announcedFile_reported
  refine ⟨hreported, ?_⟩
  rintro ⟨counts, rows, -, hrows, -, -, -, -, -, hgroups⟩
  obtain ⟨rows', hrows', hperm⟩ := capture_statusV2 hreported
  obtain rfl : rows = rows' := Except.ok.inj (hrows.symm.trans hrows')
  have hgroup := hgroups _ (hperm.mem_iff.mpr List.mem_cons_self)
  obtain ⟨h₁, h₂, h₃, h₄⟩ := inGroup_row (f := .sha1) announcedFile
  rw [h₁, h₂, h₃, h₄] at hgroup
  exact absurd hgroup (by decide)

/-- A renamed file that was changed since. -/
def renamedFile : Change :=
  .changed (some .renamed) (some .modified)
    [[78, 46, 46, 46], Mode.regular.text, Mode.regular.text, Mode.regular.text,
      List.replicate 40 49, List.replicate 40 50] [82, 57, 48] [98] (some [97])

theorem renamedFile_agreement : Agree .sha1 [renamedFile] := by
  have hreported : renamedFile.Reported .sha1 := by
    refine ⟨⟨.inl (by decide), fun h => by cases h⟩, rfl, rfl, ?_, ⟨by decide, by decide⟩,
      ⟨by decide, by decide⟩, fun old hold => ?_⟩
    · simp only [List.forall_mem_cons]
      exact ⟨⟨by decide, by decide⟩, ⟨by decide, by decide⟩, ⟨by decide, by decide⟩,
        ⟨by decide, by decide⟩, ⟨by decide, by decide⟩, ⟨by decide, by decide⟩,
        fun d hd => absurd hd List.not_mem_nil⟩
    · rw [← Option.some.inj hold]
      exact ⟨by decide, by decide⟩
  apply (status_agreement (List.forall_mem_singleton.mpr hreported)).mpr
  intro c hc
  rw [List.mem_singleton.mp hc]
  decide

end Porthop.Git.Cli
