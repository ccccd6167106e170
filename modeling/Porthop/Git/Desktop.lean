import Porthop.Git.Agent
import Porthop.Git.Pending

/- A desktop over the agents of one server: its recovery ledger, the requests it has
   sent and the answers on their way back (`git_request`).

   Each request is an exchange of its own. It waits to be delivered, an agent process
   works on it, the answer travels, the desktop reads it and records what it concludes.
   The desktop may give up at any point (its deadline, a connection closed under it) and
   a message may be lost; neither stops a process that already has the request. All
   orders of these are allowed, more than the lanes of one connection let through, and
   a reconnect is a new process beside the old one.

   Every process of the desktop's client id belongs to it. Those of other clients share
   the journal and the locks, and move as they like. -/
namespace Porthop.Git
open Pending (ReceiptState Fault File)

/-- The errors of `operation.start` that are answered before `begin`. -/
def rejectedBeforeMutation (code : String) : Bool :=
  code ∈ ["STALE_SNAPSHOT", "INVALID_REQUEST", "REPO_NOT_FOUND", "UNSUPPORTED_METHOD"]

/-- The errors of a creation that are answered before `begin`. -/
def bootstrapRejectedBeforeMutation (code : String) : Bool :=
  code ∈ ["INVALID_REQUEST", "UNSUPPORTED_METHOD", "DIRECTORY_REQUIRED",
    "ALREADY_REPOSITORY", "PATH_EXISTS", "PATH_CHANGED"]

def remoteOutcome (r : Record) (expectedId : String) : Option ReceiptState :=
  if r.operationId ≠ expectedId then none
  else
    match r.state with
    | .running => some .pending
    | .succeeded => some .succeeded
    | .failed => some .failed
    | .needsResolution => some .needsResolution
    | .outcomeUnknown => some .outcomeUnknown
    | .reviewedUnknown => some .reviewedUnknown

def Request.op : Request → String
  | write w => w.op
  | get op | review op => op

/-- What the desktop records for an answer, if anything. -/
def verdict : Request → Reply → Option ReceiptState
  | req, .ok r => remoteOutcome r req.op
  | .get _, .error e => if e.code = "OPERATION_NOT_FOUND" then some .rejected else none
  | .write w, .error e =>
    if (w.isStart ∧ rejectedBeforeMutation e.code) ∨
        (!w.isStart ∧ bootstrapRejectedBeforeMutation e.code) then
      some .rejected
    else none
  | .review _, .error _ => none

/-- The client's answer to a method the agent did not list. -/
def unsupported : Error :=
  .new "UNSUPPORTED_METHOD" "The agent does not support this Git method."

/-- The agent's answer in place of one that is over the frame limit. -/
def limitExceeded : Error :=
  .new "LIMIT_EXCEEDED" "Response exceeds the frame limit."

/-- Where a request is. -/
inductive Stage where
  | queued
  | working
  | answered (reply : Reply)
  | received (reply : Reply)
  | over

/-- A request and the process it goes to. The desktop waits for it until it gives up. -/
structure Exchange where
  pid : Pid
  req : Request
  stage : Stage
  waiting : Bool

namespace Exchange

/-- The request may still be worked on. -/
def live (x : Exchange) : Bool :=
  match x.stage with
  | .queued | .working => true
  | _ => false

/-- A dead process answers nothing. -/
def lost (p : Pid) (x : Exchange) : Exchange :=
  if x.pid = p ∧ x.live then { x with stage := .over } else x

/-- The request is the write of operation `u`. -/
def writes (uuid : String → Option Uuid) (u : Uuid) (x : Exchange) : Bool :=
  match x.req with
  | .write w => uuid w.op = some u
  | _ => false

end Exchange

structure World where
  sys : Sys
  ledger : File
  calls : List Exchange

def World.init : World := { sys := Sys.init, ledger := none, calls := [] }

inductive Event where
  | agent (l : Label)
  | send (p : Pid) (req : Request) (action : String) (supported : Bool) (fault : Fault)
  | deliver (n : Nat)
  | answer (n : Nat) (fits : Bool)
  | receive (n : Nat)
  | record (n : Nat) (fault : Fault)
  | cut (n : Nat)
  | lose (n : Nat)
  | crash (p : Pid)

section
variable (uuid : String → Option Uuid) (server : Uuid) (me : String)

/-- The process is there and is the desktop's. -/
def Sys.mine (s : Sys) (p : Pid) : Bool :=
  match s.procs p with
  | some pr => pr.client = me
  | none => false

/-- A step that an exchange is needed for. -/
def Label.exchanged : Label → Bool
  | arrive .. | reply _ | crash _ => true
  | _ => false

namespace World

/-- A request leaves, or the client answers it at once. -/
def dispatch (w : World) (p : Pid) (req : Request) (supported : Bool) : World :=
  { w with calls := w.calls ++
      [⟨p, req, if supported then .queued else .received (.error unsupported), true⟩] }

/-- The ledger after an answer. -/
def observed (w : World) (req : Request) (reply : Reply) (fault : Fault) : File :=
  match uuid req.op, verdict req reply with
  | some u, some state => ((Pending.Call.observe server u state).run fault w.ledger).2
  | _, _ => w.ledger

def step (w : World) : Event → Option World
  | .agent l =>
    if l.exchanged && w.sys.mine me l.pid then none
    else (Git.step uuid w.sys l).map fun s => { w with sys := s }
  | .send p req action supported fault =>
    if w.sys.mine me p then
      match req with
      | .write v =>
        -- the receipt is on disk before the request leaves
        match uuid v.op with
        | none => none
        | some u =>
          let saved := (Pending.Call.begin server u action).run fault w.ledger
          match saved.1 with
          | .error _ => some { w with ledger := saved.2 }
          | .ok _ => some ({ w with ledger := saved.2 }.dispatch p req supported)
      | _ => some (w.dispatch p req supported)
    else none
  | .deliver n =>
    match w.calls[n]? with
    | some ⟨p, req, .queued, waiting⟩ =>
      if w.sys.mine me p then
        (Git.step uuid w.sys (.arrive p req)).map fun s =>
          { w with sys := s, calls := w.calls.set n ⟨p, req, .working, waiting⟩ }
      else none
    | _ => none
  | .answer n fits =>
    match w.calls[n]? with
    | some ⟨p, req, .working, waiting⟩ =>
      match w.sys.procs p with
      | some ⟨_, .done reply⟩ =>
        let sent : Reply := if fits then reply else .error limitExceeded
        (Git.step uuid w.sys (.reply p)).map fun s =>
          { w with sys := s, calls := w.calls.set n ⟨p, req, .answered sent, waiting⟩ }
      | _ => none
    | _ => none
  | .receive n =>
    match w.calls[n]? with
    | some ⟨p, req, .answered reply, true⟩ =>
      some { w with calls := w.calls.set n ⟨p, req, .received reply, true⟩ }
    | _ => none
  | .record n fault =>
    match w.calls[n]? with
    | some ⟨p, req, .received reply, true⟩ =>
      some { w with
        ledger := w.observed uuid server req reply fault
        calls := w.calls.set n ⟨p, req, .over, true⟩ }
    | _ => none
  | .cut n =>
    match w.calls[n]? with
    | some x => some { w with calls := w.calls.set n { x with waiting := false } }
    | none => none
  | .lose n =>
    match w.calls[n]? with
    | some ⟨p, req, .queued, waiting⟩ | some ⟨p, req, .answered _, waiting⟩ =>
      some { w with calls := w.calls.set n ⟨p, req, .over, waiting⟩ }
    | _ => none
  | .crash p =>
    if w.sys.mine me p then
      (Git.step uuid w.sys (.crash p)).map fun s =>
        { w with sys := s, calls := w.calls.map (Exchange.lost p) }
    else none

/-- The ledger holds this state for the operation. -/
def Recorded (w : World) (u : Uuid) (state : ReceiptState) : Prop :=
  ∃ rows r, Pending.read w.ledger = .ok rows ∧ r ∈ rows ∧ r.operationId = u ∧ r.state = state

/-- The write of the operation is still on its way or in an agent's hands, or the journal
    has a record of it. -/
def unsettled (w : World) (u : Uuid) : Bool :=
  (w.calls.any fun x => x.live && x.writes uuid u) ||
    w.sys.journal.entries.any fun e => e.1.client = me && uuid e.1.op = some u

end World

/-- The step records a lookup's missing record while the operation is not settled. -/
def premature (w : World) : Event → Bool
  | .record n _ =>
    match w.calls[n]? with
    | some ⟨_, .get op, .received (.error e), _⟩ =>
      e.code = "OPERATION_NOT_FOUND" && (uuid op).any (w.unsettled uuid me)
    | _ => false
  | _ => false

end

end Porthop.Git
