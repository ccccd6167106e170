import Mathlib.Data.List.AList
import Porthop.Git.Uuid

/- The agent's operation journal: one file for each client and operation id, with
   the functions that read and write it (`Journal` in the agent). Locks are not
   here: every function below is the body that runs once its lock is held, and
   `Porthop.Git.Agent` says who holds which lock when.

   A digest is symbolic: it is modelled by what it is taken over, so different
   preimages have different digests. That is the collision freedom of SHA-256 and
   the only assumption of this module. -/
namespace Porthop.Git

/-- A JSON value as the agent builds them: no result holds a fractional number. -/
abbrev Value := Json Int

/-- The bytes of a path as they travel, with the text to show for it. -/
structure WirePath where
  bytesB64 : String
  display : String
  deriving DecidableEq

structure Error where
  code : String
  message : String
  retry : String
  deriving DecidableEq

namespace Error

def new (code message : String) : Error := ⟨code, message, "never"⟩

def invalid (message : String) : Error := new "INVALID_REQUEST" message

end Error

/-- What a digest is taken over. The identity of a repository names its common
    directory and the inode behind it; that of a destination names the directory
    it is created in, the inode behind that and the name. The payload of a write
    holds the repository's identity, that of a creation only the request. -/
inductive Digest where
  | common (path : List UInt8) (dev ino : UInt64)
  | bootstrap (path : List UInt8) (dev ino : UInt64)
  | destination (clone : Bool) (parent : Digest) (leaf : List UInt8)
  | startPayload (repository : Digest) (worktree : List UInt8) (snapshot action : String)
  | createPayload (path : WirePath) (branch : Option String) (clone : Option (String × Bool))
  deriving DecidableEq

inductive State where
  | running
  | succeeded
  | failed
  | needsResolution
  | outcomeUnknown
  | reviewedUnknown
  deriving DecidableEq

def State.text : State → String
  | running => "running"
  | succeeded => "succeeded"
  | failed => "failed"
  | needsResolution => "needs_resolution"
  | outcomeUnknown => "outcome_unknown"
  | reviewedUnknown => "reviewed_unknown"

/-- The states that keep the repository closed to new writes. -/
def State.unresolved : State → Bool
  | running | outcomeUnknown => true
  | _ => false

structure Record where
  operationId : String
  repository : Digest
  payloadHash : Digest
  state : State
  seq : Nat
  result : Option Value
  error : Option Error

def maxRecord : Nat := 64 * 1024
def maxRecords : Nat := 10000
def maxBytes : Nat := 64 * 1024 * 1024

/-! ## The stored text -/

def Error.json (e : Error) : Value :=
  .obj [("code", .str e.code), ("message", .str e.message), ("retry", .str e.retry)]

/-- Any text as long as a digest's: 64 hexadecimal digits. -/
def digestText : String := String.ofList (List.replicate 64 '0')

/-- The JSON of a record. Its length is what the journal's limits look at. -/
def Record.json (r : Record) : Value :=
  .obj [("operationId", .str r.operationId), ("repository", .str digestText),
    ("payloadHash", .str digestText), ("state", .str r.state.text), ("seq", .num r.seq),
    ("result", r.result.getD .null), ("error", (r.error.map Error.json).getD .null)]

def Record.size (r : Record) : Nat := r.json.size

/-! ## The directory of records -/

/-- The name of a record's file. -/
structure Key where
  client : String
  op : String
  deriving DecidableEq

/-- A file: the record in it and its length, which padding can make longer than
    the record's own text. -/
structure Stored where
  record : Record
  bytes : Nat

abbrev Journal := AList fun _ : Key => Stored

structure Usage where
  count : Nat
  bytes : Nat

def failure : Error :=
  .new "JOURNAL_UNAVAILABLE" "Operation records could not be safely read or saved."

def busy : Error := .new "REPOSITORY_BUSY" "Another Git operation is running."

def reused : Error :=
  .new "OPERATION_ID_REUSED" "This operation ID already belongs to a different request."

def recoveryRequired (op : String) : Error :=
  .new "RECOVERY_REQUIRED" s!"Inspect interrupted operation {op} before another write."

def journalFull : Error :=
  .new "JOURNAL_FULL" "Operation journal is full. No new writes can be accepted."

section
variable (uuid : String → Option Uuid)

def recordPath (client op : String) : Except Error Key :=
  if (uuid op).isSome then .ok ⟨client, op⟩
  else .error (.invalid "Operation and client IDs must be UUIDs.")

def load (j : Journal) (k : Key) : Except Error (Option Record) :=
  match j.lookup k with
  | none => .ok none
  | some f => if f.bytes > maxRecord then .error failure else .ok (some f.record)

def existing (j : Journal) (client op : String) (payload : Digest) :
    Except Error (Option Record) := do
  let k ← recordPath uuid client op
  match ← load j k with
  | none => .ok none
  | some r => if r.payloadHash ≠ payload then .error reused else .ok (some r)

/-- The files of the directory, in the order they are listed. -/
def recordPaths (j : Journal) : Except Error (List (Sigma fun _ : Key => Stored)) :=
  if j.entries.length > maxRecords then
    .error (.new "JOURNAL_FULL" "Operation journal is full.")
  else .ok j.entries

/-- The recovery scan: add up the files, stop at an unresolved record of the repository. -/
def scan (repository : Digest) :
    List (Sigma fun _ : Key => Stored) → Usage → Except Error Usage
  | [], u => .ok u
  | ⟨_, f⟩ :: fs, u =>
    if f.bytes > maxRecord then .error failure
    else if f.record.repository = repository ∧ f.record.state.unresolved then
      .error (recoveryRequired f.record.operationId)
    else scan repository fs ⟨u.count + 1, u.bytes + f.bytes⟩

/-- The usage of every file but the one being written. -/
def usageExcept (j : Journal) (k : Key) : Except Error Usage := do
  let paths ← recordPaths j
  let others := paths.filter fun e => e.1 ≠ k
  .ok ⟨others.length, (others.map fun e => e.2.bytes).sum⟩

def persist (j : Journal) (client : String) (r : Record) (usage : Option Usage) :
    Except Error Journal := do
  let k ← recordPath uuid client r.operationId
  if r.size > maxRecord then .error failure
  else do
    let u ← usage.elim (usageExcept j k) .ok
    if u.count ≥ maxRecords ∨ u.bytes + r.size > maxBytes then .error journalFull
    else .ok (j.insert k ⟨r, r.size⟩)

/-- The record of an operation that is about to run. -/
def Record.fresh (op : String) (payload repository : Digest) : Record :=
  ⟨op, repository, payload, .running, 1, none, none⟩

/-- The body of `begin`, under the catalog lock. A record that is already there is
    returned as it is. -/
def begin (j : Journal) (client op : String) (payload repository : Digest) :
    Except Error (Record × Journal) := do
  match ← existing uuid j client op payload with
  | some r => .ok (r, j)
  | none =>
    let paths ← recordPaths j
    let u ← scan repository paths ⟨0, 0⟩
    let r := Record.fresh op payload repository
    let j ← persist uuid j client r (some u)
    .ok (r, j)

end

/-! ## The records a request writes -/

def unknown : Error :=
  .new "OUTCOME_UNKNOWN" <| "Git did not confirm completion. Inspect the repository and " ++
    "saved outcome before repeating this operation."

def notFound : Error :=
  .new "OPERATION_NOT_FOUND" "No operation record exists. Do not automatically replay a write."

/-- A lookup finds the missing record under a text of its own, see `notFound`. -/
def reviewMissing : Error :=
  .new "OPERATION_NOT_FOUND" "No operation record exists for this client."

def notReviewable : Error :=
  .new "OPERATION_NOT_REVIEWABLE" "Only an unknown outcome can be reviewed."

def needsResolution (v : Value) : Bool :=
  match v with
  | .obj fs =>
    match fs.find? fun f => f.1 = "needsResolution" with
    | some (_, .bool b) => b
    | _ => false
  | _ => false

/-- The completion record of a write or, with `start = false`, of a creation. -/
def Record.complete (r : Record) (start : Bool) : Except Error Value → Record
  | .ok v =>
    { r with
      state := if start && needsResolution v then .needsResolution else .succeeded
      result := some v
      seq := r.seq + 1 }
  | .error e =>
    { r with
      state := if e.code = "OUTCOME_UNKNOWN" then .outcomeUnknown else .failed
      error := some e
      seq := r.seq + 1 }

/-- What a lookup makes of a running record whose repository lock is free. -/
def Record.interrupt (r : Record) : Record :=
  { r with
    state := .outcomeUnknown
    seq := r.seq + 1
    error := some (.new "OUTCOME_UNKNOWN"
      "The operation was interrupted. Inspect repository state before continuing.") }

def Record.review (r : Record) : Record :=
  { r with state := .reviewedUnknown, seq := r.seq + 1 }

/-! ## What the functions can do -/

/-- A computation that returns returned in each of its steps. -/
theorem bind_ok {ε α β : Type} {x : Except ε α} {f : α → Except ε β} {b : β}
    (h : (x >>= f) = .ok b) : ∃ a, x = .ok a ∧ f a = .ok b :=
  match x, h with
  | .ok a, h => ⟨a, rfl, h⟩

section
variable {uuid : String → Option Uuid} {j j' : Journal} {client op : String}
  {payload repository : Digest} {r : Record}

theorem recordPath_ok {k : Key} (h : recordPath uuid client op = .ok k) : k = ⟨client, op⟩ := by
  unfold recordPath at h
  split at h
  · injection h with h; exact h.symm
  · cases h

theorem load_ok_none {k : Key} (h : load j k = .ok none) : j.lookup k = none := by
  unfold load at h
  split at h
  · assumption
  · split at h <;> cases h

theorem load_ok_some {k : Key} (h : load j k = .ok (some r)) :
    ∃ f, j.lookup k = some f ∧ f.record = r := by
  unfold load at h
  split at h
  · cases h
  · split at h
    · cases h
    · next f hf _ => exact ⟨f, hf, by simpa using h⟩

theorem existing_ok_none (h : existing uuid j client op payload = .ok none) :
    j.lookup ⟨client, op⟩ = none := by
  obtain ⟨k, hk, h⟩ := bind_ok h
  obtain rfl := recordPath_ok hk
  obtain ⟨o, ho, h⟩ := bind_ok h
  split at h
  · exact load_ok_none ho
  · split at h <;> cases h

theorem existing_ok_some (h : existing uuid j client op payload = .ok (some r)) :
    ∃ f, j.lookup ⟨client, op⟩ = some f ∧ f.record = r := by
  obtain ⟨k, hk, h⟩ := bind_ok h
  obtain rfl := recordPath_ok hk
  obtain ⟨o, ho, h⟩ := bind_ok h
  split at h
  · cases h
  · split at h
    · cases h
    · obtain rfl : _ = r := by simpa using h
      exact load_ok_some ho

/-- A scan that ends has met no unresolved record of the repository. -/
theorem scan_ok {fs : List (Sigma fun _ : Key => Stored)} {u u' : Usage}
    (h : scan repository fs u = .ok u') :
    (∀ e ∈ fs, ¬(e.2.record.repository = repository ∧ e.2.record.state.unresolved)) ∧
      u' = ⟨u.count + fs.length, u.bytes + (fs.map fun e => e.2.bytes).sum⟩ := by
  induction fs generalizing u with
  | nil => exact ⟨by simp, by simpa [scan] using h.symm⟩
  | cons e fs ih =>
    obtain ⟨k, f⟩ := e
    rw [scan] at h
    split at h
    · cases h
    split at h
    · cases h
    next hfree =>
    obtain ⟨hfs, hu⟩ := ih h
    refine ⟨fun e he => ?_, ?_⟩
    · rcases List.mem_cons.mp he with rfl | he
      · exact hfree
      · exact hfs e he
    · rw [hu, List.length_cons, List.map_cons, List.sum_cons]
      simp only [Usage.mk.injEq]
      omega

/-- What a write of a record leaves. -/
theorem persist_ok {u : Option Usage} (h : persist uuid j client r u = .ok j') :
    j' = j.insert ⟨client, r.operationId⟩ ⟨r, r.size⟩ := by
  obtain ⟨k, hk, h⟩ := bind_ok h
  obtain rfl := recordPath_ok hk
  split at h
  · cases h
  obtain ⟨u, -, h⟩ := bind_ok h
  split at h
  · cases h
  · injection h with h; exact h.symm

/-- `begin` returns the record it finds, or adds a fresh one where the repository has no
    unresolved record. -/
theorem begin_ok (h : begin uuid j client op payload repository = .ok (r, j')) :
    (existing uuid j client op payload = .ok (some r) ∧ j' = j) ∨
    (existing uuid j client op payload = .ok none ∧ r = .fresh op payload repository ∧
      j' = j.insert ⟨client, op⟩ ⟨r, r.size⟩ ∧
      ∀ k f, j.lookup k = some f → f.record.repository = repository →
        f.record.state.unresolved = false) := by
  obtain ⟨o, ho, h⟩ := bind_ok h
  split at h
  · obtain ⟨rfl, rfl⟩ : _ = r ∧ j = j' := by simpa using h
    exact .inl ⟨ho, rfl⟩
  · obtain ⟨paths, hpaths, h⟩ := bind_ok h
    obtain ⟨u, hu, h⟩ := bind_ok h
    obtain ⟨j₁, hj₁, h⟩ := bind_ok h
    obtain ⟨rfl, rfl⟩ : _ = r ∧ j₁ = j' := by simpa using h
    refine .inr ⟨ho, rfl, persist_ok hj₁, fun k f hf hrepo => ?_⟩
    have hentries : paths = j.entries := by
      unfold recordPaths at hpaths
      split at hpaths
      · cases hpaths
      · injection hpaths with hpaths; exact hpaths.symm
    have hmem : (⟨k, f⟩ : Sigma fun _ : Key => Stored) ∈ paths :=
      hentries ▸ AList.mem_lookup_iff.mp hf
    have := (scan_ok hu).1 _ hmem
    simpa [hrepo] using this

end

end Porthop.Git
