import Mathlib.Logic.Function.Basic
import Porthop.Git.Journal
import Porthop.Lib.Run

/- Agent processes over one journal directory, as a step function.

   A process serves one request at a time. Its phase says where in `start`,
   `create`, `Journal::get` or `Journal::review` it is and which locks it holds; a
   step runs to the next point where another process can be seen or see it: a read
   of a record, an attempt at a lock (attempts never wait), a write, a release. A
   file lock has at most one holder and is lost with its process. The body of
   `begin` and the write of a record are one step each, taken with the catalog
   lock, which every writer holds.

   A label carries what the outside decides: which process moves, a check of the
   request that fails, how the Git action ends, an I/O error, a crash. `started`
   and `ended` record history and no step reads them. -/
namespace Porthop.Git

abbrev Pid := Nat

/-- A request that runs a Git action, with what the agent finds on disk when it
    resolves it: the repository's common directory, or the directory to create in. -/
inductive Write where
  | start (op : String) (common : List UInt8) (dev ino : UInt64) (worktree : List UInt8)
      (snapshot action : String)
  | create (op : String) (path : WirePath) (branch : Option String)
      (clone : Option (String × Bool)) (root : List UInt8) (dev ino : UInt64)
      (leaf : List UInt8)

namespace Write

def op : Write → String
  | start op .. => op
  | create op .. => op

def isStart : Write → Bool
  | start .. => true
  | create .. => false

/-- The name of the lock a write takes and of the repository its record is kept for. -/
def identity : Write → Digest
  | start _ common dev ino _ _ _ => .common common dev ino
  | create _ _ _ clone root dev ino leaf =>
    .destination clone.isSome (.bootstrap root dev ino) leaf

def payload : Write → Digest
  | start _ common dev ino worktree snapshot action =>
    .startPayload (.common common dev ino) worktree snapshot action
  | create _ path branch clone _ _ _ _ => .createPayload path branch clone

end Write

inductive Request where
  | write (w : Write)
  | get (op : String)
  | review (op : String)

abbrev Reply := Except Error Record

/-- Who saves a record: the end of a Git action, a lookup that found the operation
    interrupted, or a review. -/
inductive Saver where
  | complete (w : Write)
  | mark
  | review

/-- What the request answers once its record is saved or could not be. -/
def Saver.reply : Saver → Reply → Reply
  | _, .ok r => .ok r
  | complete (.start ..), .error _ => .error unknown
  | complete (.create ..), .error _ =>
    .error (.new "OUTCOME_UNKNOWN" "Creation completed but its outcome could not be saved.")
  | mark, .error e => .error e
  | review, .error e => .error e

/-- Where a process is. The phases of a write come first, then those that save a
    record, then those of a lookup and of a review. -/
inductive Phase where
  | idle
  | lookup (w : Write)
  | lock (w : Write)
  | recheck (w : Write)
  | preflight (w : Write)
  | begin (w : Write)
  | claim (w : Write)
  | claimed (w : Write) (reply : Reply)
  | ready (w : Write) (r : Record)
  | acting (w : Write) (r : Record)
  | save (s : Saver) (i : Digest) (r : Record)
  | persist (s : Saver) (i : Digest) (r : Record)
  | persisted (s : Saver) (i : Digest) (reply : Reply)
  | load (op : String)
  | probe (op : String) (r : Record)
  | mark (op : String) (r : Record)
  | reviewLoad (op : String)
  | reviewLock (op : String) (r : Record)
  | confirm (op : String) (r : Record)
  | unwind (i : Digest) (reply : Reply)
  | done (reply : Reply)

/-- The repository lock a phase holds. -/
def Phase.holds : Phase → Option Digest
  | recheck w | preflight w | begin w | claim w | claimed w _ | ready w _ | acting w _ =>
    some w.identity
  | save _ i _ | persist _ i _ | persisted _ i _ | unwind i _ => some i
  | mark _ r | confirm _ r => some r.repository
  | _ => none

structure Proc where
  client : String
  phase : Phase

/-- The journal, the holders of the locks, the processes and the history: the
    actions started, and the completion records built at the end of an action. -/
structure Sys where
  journal : Journal
  locks : Digest → Option Pid
  catalog : Option Pid
  procs : Pid → Option Proc
  started : List Key
  ended : List (Key × Record)

def Sys.init : Sys :=
  { journal := ∅, locks := fun _ => none, catalog := none, procs := fun _ => none,
    started := [], ended := [] }

inductive Label where
  | spawn (p : Pid) (client : String)
  | arrive (p : Pid) (req : Request)
  | step (p : Pid)
  | fail (p : Pid) (e : Error)
  | finish (p : Pid) (outcome : Except Error Value)
  | io (p : Pid)
  | sync (p : Pid)
  | reply (p : Pid)
  | crash (p : Pid)

/-- The process a step is of. -/
def Label.pid : Label → Pid
  | spawn p _ | arrive p _ | step p | fail p _ | finish p _ | io p | sync p | reply p
  | crash p => p

namespace Sys

def goto (s : Sys) (p : Pid) (c : String) (ph : Phase) : Sys :=
  { s with procs := Function.update s.procs p (some ⟨c, ph⟩) }

def take (s : Sys) (p : Pid) (i : Digest) : Sys :=
  { s with locks := Function.update s.locks i (some p) }

def release (s : Sys) (i : Digest) : Sys :=
  { s with locks := Function.update s.locks i none }

/-- A crash frees every lock of the process. -/
def drop (s : Sys) (p : Pid) : Sys :=
  { s with
    locks := fun i => if s.locks i = some p then none else s.locks i
    catalog := if s.catalog = some p then none else s.catalog
    procs := Function.update s.procs p none }

end Sys

/-- The first phase of a request. -/
def Request.phase : Request → Phase
  | write w => .lookup w
  | get op => .load op
  | review op => .reviewLoad op

section
variable (uuid : String → Option Uuid)

/-- The next step of process `p` of client `c`, from its phase. -/
def advance (s : Sys) (p : Pid) (c : String) : Phase → Option Sys
  | .lookup w =>
    match existing uuid s.journal c w.op w.payload with
    | .error e => some (s.goto p c (.done (.error e)))
    | .ok (some _) => some (s.goto p c (.load w.op))
    | .ok none => some (s.goto p c (.lock w))
  | .lock w =>
    match s.locks w.identity with
    | some _ => some (s.goto p c (.done (.error busy)))
    | none => some ((s.take p w.identity).goto p c (.recheck w))
  | .recheck w =>
    match existing uuid s.journal c w.op w.payload with
    | .error e => some (s.goto p c (.unwind w.identity (.error e)))
    | .ok (some r) => some (s.goto p c (.unwind w.identity (.ok r)))
    | .ok none => some (s.goto p c (.preflight w))
  | .preflight w => some (s.goto p c (.begin w))
  | .begin w =>
    match s.catalog with
    | some _ => some (s.goto p c (.unwind w.identity (.error busy)))
    | none => some ({ s with catalog := some p }.goto p c (.claim w))
  | .claim w =>
    match Git.begin uuid s.journal c w.op w.payload w.identity with
    | .error e => some (s.goto p c (.claimed w (.error e)))
    | .ok (r, j) => some ({ s with journal := j }.goto p c (.claimed w (.ok r)))
  | .claimed w (.error e) =>
    some ({ s with catalog := none }.goto p c (.unwind w.identity (.error e)))
  | .claimed w (.ok r) => some ({ s with catalog := none }.goto p c (.ready w r))
  | .ready w r =>
    some ({ s with started := ⟨c, w.op⟩ :: s.started }.goto p c (.acting w r))
  | .save sv i r =>
    match s.catalog with
    | some _ => some (s.goto p c (.unwind i (sv.reply (.error busy))))
    | none => some ({ s with catalog := some p }.goto p c (.persist sv i r))
  | .persist sv i r =>
    match Git.persist uuid s.journal c r none with
    | .error e => some (s.goto p c (.persisted sv i (.error e)))
    | .ok j => some ({ s with journal := j }.goto p c (.persisted sv i (.ok r)))
  | .persisted sv i reply =>
    some ({ s with catalog := none }.goto p c (.unwind i (sv.reply reply)))
  | .load op =>
    match recordPath uuid c op >>= Git.load s.journal with
    | .error e => some (s.goto p c (.done (.error e)))
    | .ok none => some (s.goto p c (.done (.error notFound)))
    | .ok (some r) =>
      if r.state = .running then some (s.goto p c (.probe op r))
      else some (s.goto p c (.done (.ok r)))
  | .probe op r =>
    match s.locks r.repository with
    | some _ => some (s.goto p c (.done (.ok r)))
    | none => some ((s.take p r.repository).goto p c (.mark op r))
  | .mark op r =>
    -- its owner may just have finished: the record is read again under the lock
    match recordPath uuid c op >>= Git.load s.journal with
    | .error e => some (s.goto p c (.unwind r.repository (.error e)))
    | .ok none => some (s.goto p c (.unwind r.repository (.error failure)))
    | .ok (some r') =>
      if r'.state = .running then some (s.goto p c (.save .mark r.repository r'.interrupt))
      else some (s.goto p c (.unwind r.repository (.ok r')))
  | .reviewLoad op =>
    match recordPath uuid c op >>= Git.load s.journal with
    | .error e => some (s.goto p c (.done (.error e)))
    | .ok none => some (s.goto p c (.done (.error reviewMissing)))
    | .ok (some r) => some (s.goto p c (.reviewLock op r))
  | .reviewLock op r =>
    match s.locks r.repository with
    | some _ => some (s.goto p c (.done (.error busy)))
    | none => some ((s.take p r.repository).goto p c (.confirm op r))
  | .confirm op r =>
    match recordPath uuid c op >>= Git.load s.journal with
    | .error e => some (s.goto p c (.unwind r.repository (.error e)))
    | .ok none => some (s.goto p c (.unwind r.repository (.error reviewMissing)))
    | .ok (some r') =>
      if r'.operationId ≠ op ∨ r'.repository ≠ r.repository then
        some (s.goto p c (.unwind r.repository (.error failure)))
      else
        match r'.state with
        | .reviewedUnknown => some (s.goto p c (.unwind r.repository (.ok r')))
        | .outcomeUnknown =>
          -- the sequence number is 32 bits wide
          if r'.seq + 1 < 2 ^ 32 then
            some (s.goto p c (.save .review r.repository r'.review))
          else some (s.goto p c (.unwind r.repository (.error failure)))
        | _ => some (s.goto p c (.unwind r.repository (.error notReviewable)))
  | .unwind i reply => some ((s.release i).goto p c (.done reply))
  | .idle | .acting .. | .done _ => none

/-- Where an I/O error takes a process: out of the request, with its locks released. -/
def Phase.abort : Phase → Option Phase
  | .lookup _ | .lock _ | .load _ | .probe .. | .reviewLoad _ | .reviewLock .. =>
    some (.done (.error failure))
  | .recheck w | .preflight w | .begin w => some (.unwind w.identity (.error failure))
  | .claim w => some (.claimed w (.error failure))
  | .save sv i _ => some (.unwind i (sv.reply (.error failure)))
  | .persist sv i _ => some (.persisted sv i (.error failure))
  | .mark _ r | .confirm _ r => some (.unwind r.repository (.error failure))
  | _ => none

/-- A check of the request that fails before `begin`. -/
def Phase.refuse (e : Error) : Phase → Option Phase
  | .lookup _ | .lock _ => some (.done (.error e))
  | .preflight w => some (.unwind w.identity (.error e))
  | _ => none

/-- A write that reached the directory but whose sync failed: the file is replaced
    and the caller is told it is not. -/
def syncFailed (s : Sys) (p : Pid) (c : String) : Phase → Option Sys
  | .claim w =>
    match existing uuid s.journal c w.op w.payload,
        Git.begin uuid s.journal c w.op w.payload w.identity with
    | .ok none, .ok (_, j) =>
      some ({ s with journal := j }.goto p c (.claimed w (.error failure)))
    | _, _ => none
  | .persist sv i r =>
    match Git.persist uuid s.journal c r none with
    | .error _ => none
    | .ok j => some ({ s with journal := j }.goto p c (.persisted sv i (.error failure)))
  | _ => none

def step (s : Sys) : Label → Option Sys
  | .spawn p c =>
    match s.procs p with
    | some _ => none
    | none => if (uuid c).isSome then some (s.goto p c .idle) else none
  | .arrive p req =>
    match s.procs p with
    | some ⟨c, .idle⟩ => some (s.goto p c req.phase)
    | _ => none
  | .step p => (s.procs p).bind fun pr => advance uuid s p pr.client pr.phase
  | .fail p e => (s.procs p).bind fun pr => (pr.phase.refuse e).map (s.goto p pr.client)
  | .finish p outcome =>
    match s.procs p with
    | some ⟨c, .acting w r⟩ =>
      let r' := r.complete w.isStart outcome
      some ({ s with ended := (⟨c, w.op⟩, r') :: s.ended }.goto p c
        (.save (.complete w) w.identity r'))
    | _ => none
  | .io p => (s.procs p).bind fun pr => pr.phase.abort.map (s.goto p pr.client)
  | .sync p => (s.procs p).bind fun pr => syncFailed uuid s p pr.client pr.phase
  | .reply p =>
    match s.procs p with
    | some ⟨c, .done _⟩ => some (s.goto p c .idle)
    | _ => none
  | .crash p => (s.procs p).map fun _ => s.drop p

end

end Porthop.Git
