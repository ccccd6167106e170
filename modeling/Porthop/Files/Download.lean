import Porthop.Files.Upload

/- Downloading a file (`download` in `files/transfer.rs`).

   The content goes into a file beside the destination, which takes the destination's place at
   once when all is there. A write to it returns before it is made: it is made later, by the
   system, and may then fail. The work can be dropped wherever it waits. -/
namespace Porthop.Files

/-- What the server says of a file. -/
structure Attrs where
  regular : Bool
  size : Option Nat
  mtime : Option Nat
  deriving DecidableEq

inductive ReadAnswer where
  | data (bytes : List UInt8)
  | eof
  | failed (error : String)

/-- What a download is given: the remote path, and whether the local one has a parent folder. -/
structure Download where
  remote : String
  parent : Bool

namespace Download

inductive Point where
  | start
  | stat
  | opening
  | reading
  | writing (count : Nat)
  | closing
  | checking
  | syncing
  | returned (result : Except String Unit)
  | gone

structure State where
  /-- The local file that is to be replaced. -/
  destination : Option (List UInt8)
  /-- What the file beside it holds. -/
  staging : List UInt8
  /-- The writes to it that are not made yet. -/
  queue : List (List UInt8)
  /-- A write to it has failed. -/
  failed : Bool
  point : Point
  attrs : Attrs
  after : Attrs
  offset : Nat
  /-- What was read of the remote file. -/
  taken : List UInt8

def initial (destination : Option (List UInt8)) : State where
  destination := destination
  staging := []
  queue := []
  failed := false
  point := .start
  attrs := ⟨false, none, none⟩
  after := ⟨false, none, none⟩
  offset := 0
  taken := []

namespace State

variable (d : Download) (s : State)

def finish (result : Except String Unit) : State := { s with point := .returned result }

def begin : State :=
  match pathValid d.remote with
  | .error error => s.finish (.error error)
  | .ok _ => { s with point := .stat }

/-- The first attributes, and whether the file beside the destination can be made. -/
def stat (answer : Except String Attrs) (staged : Except String Unit) : State :=
  match answer with
  | .error error => s.finish (.error error)
  | .ok attrs =>
    if !attrs.regular then s.finish (.error "Only regular files can be downloaded")
    else if !d.parent then s.finish (.error "Download destination has no parent folder")
    else
      match staged with
      | .error error => s.finish (.error error)
      | .ok _ => { s with attrs := attrs, point := .opening }

def opened : Except String Unit → State
  | .error error => s.finish (.error error)
  | .ok _ => { s with point := .reading }

def read : ReadAnswer → State
  | .data bytes =>
    if bytes.isEmpty then { s with point := .closing }
    else { s with
      queue := s.queue ++ [bytes], taken := s.taken ++ bytes, point := .writing bytes.length }
  | .eof => { s with point := .closing }
  | .failed error => s.finish (.error error)

def written (count : Nat) : Except String Unit → State
  | .error error => s.finish (.error error)
  | .ok _ => { s with offset := s.offset + count, point := .reading }

def closed : Except String Unit → State
  | .error error => s.finish (.error error)
  | .ok _ => { s with point := .checking }

def checked : Except String Attrs → State
  | .error error => s.finish (.error error)
  | .ok after =>
    if (s.attrs.size.any fun size => size ≠ s.offset) || s.attrs.size ≠ after.size ||
        s.attrs.mtime ≠ after.mtime then
      s.finish (.error "Remote file changed during download. Please try again.")
    else { s with after := after, point := .syncing }

/-- When the file is in step with the disk it takes the place of the destination. -/
def synced (answer persisted : Except String Unit) : State :=
  match answer, persisted with
  | .error error, _ => s.finish (.error error)
  | .ok _, .error error => s.finish (.error error)
  | .ok _, .ok _ => { s with destination := some s.staging }.finish (.ok ())

/-- The oldest write is made, or fails after some bytes. -/
def flush (fails : Option Nat) : Option State :=
  match s.queue, fails with
  | [], _ => none
  | bytes :: queue, none => some { s with staging := s.staging ++ bytes, queue := queue }
  | bytes :: queue, some n =>
    some { s with staging := s.staging ++ bytes.take n, queue := queue, failed := true }

end State

inductive Move where
  /-- Another program writes the destination. -/
  | others (destination : Option (List UInt8))
  | flush (fails : Option Nat)
  | drop
  | begin
  | stat (answer : Except String Attrs) (staged : Except String Unit)
  | opened (answer : Except String Unit)
  | read (answer : ReadAnswer)
  | written (answer : Except String Unit)
  | closed (answer : Except String Unit)
  | checked (answer : Except String Attrs)
  | synced (answer persisted : Except String Unit)

def step (d : Download) (s : State) : Move → Option State
  | .others destination => some { s with destination := destination }
  | .flush fails => s.flush fails
  | .drop => some { s with point := .gone }
  | .begin => match s.point with | .start => some (s.begin d) | _ => none
  | .stat answer staged => match s.point with | .stat => some (s.stat d answer staged) | _ => none
  | .opened answer => match s.point with | .opening => some (s.opened answer) | _ => none
  | .read answer => match s.point with | .reading => some (s.read answer) | _ => none
  | .written answer =>
    match s.point with | .writing count => some (s.written count answer) | _ => none
  | .closed answer => match s.point with | .closing => some (s.closed answer) | _ => none
  | .checked answer => match s.point with | .checking => some (s.checked answer) | _ => none
  | .synced answer persisted =>
    match s.point with | .syncing => some (s.synced answer persisted) | _ => none

/-! ## What the file beside the destination holds -/

/-- Where the file was put in step with the disk, all writes were made. -/
def Told (s : State) : Move → Prop
  | .synced (.ok _) _ => s.queue = [] ∧ s.failed = false
  | _ => True

/-- How far the download is. -/
def Counted (s : State) : Point → Prop
  | .start | .stat | .opening => s.offset = 0 ∧ s.taken = []
  | .reading | .closing | .checking => s.offset = s.taken.length
  | .writing count => s.offset + count = s.taken.length
  | .syncing => s.after.size = s.attrs.size ∧ s.after.mtime = s.attrs.mtime ∧
      ∀ size, s.attrs.size = some size → size = s.taken.length
  | .returned _ | .gone => True

structure Inv (s : State) : Prop where
  content : s.failed = false → s.staging ++ s.queue.flatten = s.taken
  counted : Counted s s.point

variable {d : Download} {s s' : State}

theorem Counted.same {p : Point} (h : Counted s p) (hoffset : s'.offset = s.offset)
    (htaken : s'.taken = s.taken) (hattrs : s'.attrs = s.attrs) (hafter : s'.after = s.after) :
    Counted s' p := by
  cases p with
  | returned | gone => trivial
  | _ =>
    simp only [Counted, hoffset, htaken, hattrs, hafter] at h ⊢
    exact h

theorem Inv.finish (h : Inv s) (result : Except String Unit) : Inv (s.finish result) :=
  ⟨h.content, trivial⟩

theorem Inv.flush (h : Inv s) {fails : Option Nat} (hstep : s.flush fails = some s') : Inv s' := by
  unfold State.flush at hstep
  split at hstep
  · cases hstep
  next bytes queue hqueue =>
    cases hstep
    refine ⟨fun hgood => ?_, h.counted.same rfl rfl rfl rfl⟩
    change s.staging ++ bytes ++ queue.flatten = s.taken
    rw [← h.content hgood, hqueue, List.flatten_cons, List.append_assoc]
  next bytes queue n hqueue =>
    cases hstep
    exact ⟨nofun, h.counted.same rfl rfl rfl rfl⟩

theorem Inv.stat (h : Inv s) (hpoint : s.point = .stat) (answer : Except String Attrs)
    (staged : Except String Unit) : Inv (s.stat d answer staged) := by
  have hcounted := h.counted
  rw [hpoint] at hcounted
  unfold State.stat
  split
  · exact h.finish _
  · split
    · exact h.finish _
    · split
      · exact h.finish _
      · split
        · exact h.finish _
        · exact ⟨h.content, hcounted⟩

theorem Inv.read (h : Inv s) (hpoint : s.point = .reading) (answer : ReadAnswer) :
    Inv (s.read answer) := by
  have hcounted := h.counted
  rw [hpoint] at hcounted
  unfold State.read
  split
  · split
    · exact ⟨h.content, hcounted⟩
    next bytes _ =>
      refine ⟨fun hgood => ?_, ?_⟩
      · change s.staging ++ (s.queue ++ [bytes]).flatten = s.taken ++ bytes
        rw [← h.content hgood, List.flatten_append, List.flatten_singleton, List.append_assoc]
      · change s.offset + bytes.length = (s.taken ++ bytes).length
        rw [List.length_append, show s.offset = s.taken.length from hcounted]
  · exact ⟨h.content, hcounted⟩
  · exact h.finish _

/-- What is checked before the destination is replaced. -/
theorem Inv.checked (h : Inv s) (hpoint : s.point = .checking) (answer : Except String Attrs) :
    Inv (s.checked answer) := by
  have hcounted := h.counted
  rw [hpoint] at hcounted
  unfold State.checked
  split
  · exact h.finish _
  next after =>
    split
    · exact h.finish _
    next hsame =>
      simp only [Bool.or_eq_true, not_or, Bool.not_eq_true, decide_eq_false_iff_not, ne_eq,
        not_not] at hsame
      obtain ⟨⟨hlength, hsize⟩, hmtime⟩ := hsame
      refine ⟨h.content, hsize.symm, hmtime.symm, fun size hsome => ?_⟩
      have hoffset : s.offset = s.taken.length := hcounted
      change s.attrs.size = some size at hsome
      change size = s.taken.length
      rw [hsome] at hlength
      rw [← hoffset]
      simpa using hlength

theorem inv_step (h : Inv s) {move : Move} (hstep : step d s move = some s') : Inv s' := by
  unfold step at hstep
  split at hstep
  · cases hstep
    exact ⟨h.content, h.counted.same rfl rfl rfl rfl⟩
  · exact h.flush hstep
  · cases hstep
    exact ⟨h.content, trivial⟩
  · split at hstep
    next hpoint =>
      have hcounted := h.counted
      rw [hpoint] at hcounted
      cases hstep
      unfold State.begin
      split
      · exact h.finish _
      · exact ⟨h.content, hcounted⟩
    · cases hstep
  · split at hstep
    next hpoint =>
      cases hstep
      exact h.stat hpoint _ _
    · cases hstep
  · split at hstep
    next hpoint =>
      have hcounted := h.counted
      rw [hpoint] at hcounted
      cases hstep
      unfold State.opened
      split
      · exact h.finish _
      · refine ⟨h.content, ?_⟩
        change s.offset = s.taken.length
        rw [hcounted.1, hcounted.2]
        rfl
    · cases hstep
  · split at hstep
    next hpoint =>
      cases hstep
      exact h.read hpoint _
    · cases hstep
  · split at hstep
    next count hpoint =>
      have hcounted := h.counted
      rw [hpoint] at hcounted
      cases hstep
      unfold State.written
      split
      · exact h.finish _
      · exact ⟨h.content, hcounted⟩
    · cases hstep
  · split at hstep
    next hpoint =>
      have hcounted := h.counted
      rw [hpoint] at hcounted
      cases hstep
      unfold State.closed
      split
      · exact h.finish _
      · exact ⟨h.content, hcounted⟩
    · cases hstep
  · split at hstep
    next hpoint =>
      cases hstep
      exact h.checked hpoint _
    · cases hstep
  · split at hstep
    · cases hstep
      unfold State.synced
      split
      · exact h.finish _
      · exact h.finish _
      · exact ⟨h.content, trivial⟩
    · cases hstep

theorem inv_initial (destination : Option (List UInt8)) : Inv (initial destination) :=
  ⟨fun _ => rfl, rfl, rfl⟩

/-! ## The destination -/

/-- A step of the download leaves the destination as it is, or puts all that was read in its place
at once, with the size and the time of the remote file as they were. -/
def Replaces (s s' : State) : Prop :=
  s'.destination = s.destination ∨
    (s'.destination = some s.taken ∧ s.after.size = s.attrs.size ∧ s.after.mtime = s.attrs.mtime ∧
      ∀ size, s.attrs.size = some size → size = s.taken.length)

theorem replaces_step (h : Inv s) {move : Move} (hmove : ∀ content, move ≠ .others content)
    (htold : Told s move) (hstep : step d s move = some s') : Replaces s s' := by
  unfold step at hstep
  split at hstep
  next content => exact absurd rfl (hmove content)
  · unfold State.flush at hstep
    split at hstep
    · cases hstep
    · cases hstep
      exact Or.inl rfl
    · cases hstep
      exact Or.inl rfl
  · cases hstep
    exact Or.inl rfl
  · split at hstep
    · cases hstep
      unfold State.begin
      split <;> exact Or.inl rfl
    · cases hstep
  · split at hstep
    · cases hstep
      unfold State.stat
      split
      · exact Or.inl rfl
      · split
        · exact Or.inl rfl
        · split
          · exact Or.inl rfl
          · split <;> exact Or.inl rfl
    · cases hstep
  · split at hstep
    · cases hstep
      unfold State.opened
      split <;> exact Or.inl rfl
    · cases hstep
  · split at hstep
    · cases hstep
      unfold State.read
      split
      · split <;> exact Or.inl rfl
      · exact Or.inl rfl
      · exact Or.inl rfl
    · cases hstep
  · split at hstep
    · cases hstep
      unfold State.written
      split <;> exact Or.inl rfl
    · cases hstep
  · split at hstep
    · cases hstep
      unfold State.closed
      split <;> exact Or.inl rfl
    · cases hstep
  · split at hstep
    · cases hstep
      unfold State.checked
      split
      · exact Or.inl rfl
      · split <;> exact Or.inl rfl
    · cases hstep
  · split at hstep
    next hpoint =>
      cases hstep
      unfold State.synced
      split
      · exact Or.inl rfl
      · exact Or.inl rfl
      · -- everything that was written is there, so the file holds all that was read
        obtain ⟨hqueue, hgood⟩ := htold
        have hcontent := h.content hgood
        rw [hqueue, List.flatten_nil, List.append_nil] at hcontent
        have hcounted := h.counted
        rw [hpoint] at hcounted
        exact Or.inr ⟨congrArg some hcontent, hcounted⟩
    · cases hstep

end Download

end Porthop.Files
