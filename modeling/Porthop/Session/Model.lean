import Mathlib.Data.String.Basic

/- The requests of the frontend, and what a server's agent has to know for each of them
   (`domain/git.ts`, and the checks of `gitSession.ts`).

   Of the parameters those stand here that the session looks at. -/
namespace Porthop.Session

/-- The id of a write, which is never empty. -/
structure OperationId where
  text : String
  ne : text ≠ ""
  deriving DecidableEq

structure Capabilities where
  methods : List String
  actions : Option (List String)
  features : Option (List String)

namespace Capabilities

def feature (c : Capabilities) (name : String) : Bool := c.features.any fun fs => fs.contains name

def action (c : Capabilities) (kind : String) : Bool := c.actions.any fun as => as.contains kind

end Capabilities

inductive ReadMethod where
  | repoOpen
  | remoteNames
  | remote
  | repoClose
  | remotes
  | stashes
  | statusSummary
  | status
  | worktrees
  | tags
  | tag
  | branches
  | history
  | remoteRefs
  | commit
  | blob
  | blobPage
  | commitFiles
  | commitDiffPage
  | commitDiff
  | diffPage
  | diff
  | operationGet
  deriving DecidableEq

def ReadMethod.text : ReadMethod → String
  | repoOpen => "repo.open"
  | remoteNames => "repo.remote_names"
  | remote => "repo.remote"
  | repoClose => "repo.close"
  | remotes => "repo.remotes"
  | stashes => "repo.stashes"
  | statusSummary => "repo.status_summary"
  | status => "repo.status"
  | worktrees => "repo.worktrees"
  | tags => "repo.tags"
  | tag => "repo.tag"
  | branches => "repo.branches"
  | history => "repo.history"
  | remoteRefs => "repo.remote_refs"
  | commit => "repo.commit"
  | blob => "repo.blob"
  | blobPage => "repo.blob_page"
  | commitFiles => "repo.commit_files"
  | commitDiffPage => "repo.commit_diff_page"
  | commitDiff => "repo.commit_diff"
  | diffPage => "repo.diff_page"
  | diff => "repo.diff"
  | operationGet => "operation.get"

structure ReadParams where
  path : Option String
  atSnapshot : Option String
  filter : Option String
  branch : Option String
  name : Option String
  branchKind : Option String
  lineEncoding : Option String
  messageBytes : Option Nat

structure Hunks where
  ids : List String
  lines : Option (List String)
  contextLines : Nat

structure Action where
  kind : String
  index : Option Nat
  hunks : Option Hunks
  newBranch : Bool

inductive GitRequest where
  | read (method : ReadMethod) (params : ReadParams)
  | operationStart (operationId : OperationId) (action : Action)
  | repoInit (operationId : OperationId)
  | repoClone (operationId : OperationId)

namespace GitRequest

def method : GitRequest → String
  | read m _ => m.text
  | operationStart _ _ => "operation.start"
  | repoInit _ => "repo.init"
  | repoClone _ => "repo.clone"

def isGitMutation : GitRequest → Bool
  | read _ _ => false
  | _ => true

/-- The id of a write. -/
def operationId : GitRequest → Option OperationId
  | read _ _ => none
  | operationStart id _ => some id
  | repoInit id => some id
  | repoClone id => some id

end GitRequest

/-- A text that is there and not empty. -/
def given (s : Option String) : Bool := s.any fun s => s ≠ ""

/-- What trimming removes. -/
def trimmed (c : Char) : Bool :=
  c.toNat ∈ [0x9, 0xa, 0xb, 0xc, 0xd, 0x20, 0xa0, 0x1680, 0x2028, 0x2029, 0x202f, 0x205f, 0x3000,
    0xfeff] ∨ (0x2000 ≤ c.toNat ∧ c.toNat ≤ 0x200a)

/-- A read as it goes to an agent of these capabilities. -/
def adaptRead (c : Capabilities) (m : ReadMethod) (p : ReadParams) : Except String ReadParams :=
  match m with
  | .statusSummary =>
    if p.path.isSome && !c.feature "status_summary.path" then
      .error "Update the server agent to read project summaries by path."
    else .ok p
  | .worktrees =>
    if p.atSnapshot.isSome && !c.feature "worktrees.snapshot_filter" then
      .error "Update the server agent to search a captured worktree listing."
    else if (given p.filter || given p.branch || given p.name) && !c.feature "worktrees.filter" then
      .error "Update the server agent to search and filter worktrees."
    else .ok p
  | .remoteRefs =>
    if c.feature "remote_refs.filter" then .ok p
    else if p.filter.any fun s => !s.toList.all trimmed then
      .error "Update the server agent to search remote references."
    else .ok { p with filter := none }
  | .status => .ok (if c.feature "status.filter" then p else { p with filter := none })
  | .branches =>
    if (given p.filter || (given p.branchKind && p.branchKind ≠ some "all")) &&
        !c.feature "branches.filter" then
      .error "Update the server agent to search and filter branches."
    else .ok p
  | .diffPage | .commitDiffPage =>
    .ok (if c.feature "diff.tuple_v1" then p else { p with lineEncoding := none })
  | .history => .ok (if c.feature "history.summary" then p else { p with messageBytes := none })
  | .tags => .ok (if c.feature "tags.summary" then p else { p with messageBytes := none })
  | _ => .ok p

def checkAction (c : Capabilities) (a : Action) : Except String Unit :=
  if !c.action a.kind then .error "This server agent does not support that Git action."
  else if a.kind ∈ ["stash.apply", "stash.pop", "stash.drop"] ∧ a.index.isSome ∧
      !c.feature "stash.entry_index" then
    .error "Update the server agent to select an exact stash entry."
  else if a.hunks.isSome && !c.feature "index.hunks" then
    .error "Update the server agent to stage individual hunks."
  else if (a.hunks.any fun h => h.lines.isSome) && !c.feature "index.lines" then
    .error "Update the server agent to stage individual lines."
  else if a.kind = "conflict.resolve" ∧ !c.action "conflict.resolve" then
    .error "Update the server agent to resolve conflicts by choosing a side."
  else if a.kind = "worktree.add" ∧ a.newBranch ∧ !c.feature "worktree.new_branch" then
    .error "Update the server agent to create a worktree on a new branch."
  else if a.kind = "discard" ∧ a.hunks.isSome ∧ !c.feature "discard.hunks" then
    .error "Update the server agent to discard selected hunks."
  else .ok ()

/-- A request as it goes to an agent of these capabilities. -/
def adapt (c : Capabilities) (r : GitRequest) : Except String GitRequest :=
  if !c.methods.contains r.method then .error "Update the server agent to use this Git feature."
  else
    match r with
    | .read m p => (adaptRead c m p).map (.read m)
    | .operationStart id a => (checkAction c a).map fun _ => .operationStart id a
    | .repoInit id => .ok (.repoInit id)
    | .repoClone id => .ok (.repoClone id)

end Porthop.Session

/- The Git session of one server in the frontend (`gitSession.ts`).

   Each request runs by itself from one wait to the next: for the requests it stands behind, for
   a connection that is being given up, for a connection, for the id of a read, for its answer.
   The desktop answers at any time, and of all that can go on, anything may go on next; so a run
   is a list of events. An end that the code takes some turns of its queue to pass on is passed
   on at once here, and found out by others at any later time.

   The log holds what passes between the session and the desktop and its callers. -/
namespace Porthop.Session

/-- What an error says of itself. -/
structure GitError where
  code : Option String
  message : String

def terminalCodes : List String :=
  ["TRANSPORT_ERROR", "PROTOCOL_ERROR", "CANCELLED", "STALE_CONNECTION", "SESSION_NOT_FOUND",
    "OUTCOME_UNKNOWN"]

def GitError.terminal (e : GitError) : Bool := e.code.any fun code => terminalCodes.contains code

def closedError : GitError := ⟨none, "Git session is closed. Reconnect to continue."⟩

variable {V : Type}

/-- How a request ends. -/
inductive Outcome (V : Type) where
  | value (v : V)
  | aborted
  | error (e : GitError)
  | operation (id : OperationId) (code message : String)

/-- Where a request waits. One that was sent, or asks for the id of its read, knows the
    connection of that moment. -/
inductive Phase (V : Type) where
  | queued
  | resetting (reset : Option Nat)
  | connecting (connection : Nat)
  | registering (attempt : Option Nat) (captured : GitRequest) (reply : Option (Except GitError String))
  | sent (attempt : Option Nat) (captured : GitRequest) (reply : Option (Except GitError V))
  | settled (o : Outcome V)

structure Request (V : Type) where
  request : GitRequest
  signal : Bool
  aborted : Bool
  barrier : List Nat
  phase : Phase V

/-- A disconnect, by the session itself or for its caller. -/
structure Reset where
  own : Bool
  finished : Bool

inductive Entry (V : Type) where
  | requested (i : Nat) (request : GitRequest) (signal : Bool)
  | dispatched (i : Nat) (request : GitRequest)
  | replied (i : Nat) (r : Except GitError V)
  | settled (i : Nat) (o : Outcome V)
  | cancelled (i : Nat)
  | closed
  | disconnect (r : Nat) (own : Bool)
  | disconnected (r : Nat)

/-- The session, with its requests in the order they came and all it asked the desktop for. -/
structure GitSession (V : Type) where
  requests : List (Request V)
  closed : Bool
  disposal : Bool
  writeBarrier : Option Nat
  reads : List Nat
  connection : Option Nat
  connections : List (Option (Except GitError Capabilities))
  resetting : Option Nat
  resets : List Reset
  log : List (Entry V)

inductive Event (V : Type) where
  | request (r : GitRequest) (signal : Bool)
  | abort (i : Nat)
  | dispose
  | forget
  /-- The request goes on. -/
  | resume (i : Nat)
  | readSettled (i : Nat)
  | connected (c : Nat) (r : Except GitError Capabilities)
  | connectionFailed (c : Nat)
  | registered (i : Nat) (r : Except GitError String)
  | replied (i : Nat) (r : Except GitError V)
  | resetFinished (r : Nat)
  | resetCleared (r : Nat)

def Phase.isSettled : Phase V → Bool
  | settled _ => true
  | _ => false

namespace Request

/-- A write that waits its turn. -/
def isWrite (r : Request V) : Bool := r.request.isGitMutation && !r.signal

/-- A write that is refused at once, for its signal. -/
def isRefused (r : Request V) : Bool := r.request.isGitMutation && r.signal

def isSettled (r : Request V) : Bool := r.phase.isSettled

end Request

namespace GitSession

def put (s : GitSession V) (i : Nat) (p : Phase V) (es : List (Entry V)) : GitSession V :=
  { s with requests := s.requests.modify i fun r => { r with phase := p }, log := s.log ++ es }

def settle (s : GitSession V) (i : Nat) (o : Outcome V) : GitSession V :=
  s.put i (.settled o) [.settled i o]

def send (s : GitSession V) (i : Nat) (attempt : Option Nat) (captured : GitRequest) :
    GitSession V :=
  s.put i (.sent attempt captured none) [.dispatched i captured]

def cancelRead (s : GitSession V) (i : Nat) : GitSession V :=
  { s with log := s.log ++ [.cancelled i] }

/-- The requests a new one waits for have settled. -/
def opened (s : GitSession V) (barrier : List Nat) : Bool :=
  barrier.all fun k => s.requests[k]?.any Request.isSettled

/-- Let go of the connection. One disconnect is under way at most. -/
def forget (s : GitSession V) (own : Bool) : GitSession V :=
  match s.resetting with
  | some _ => { s with connection := none }
  | none => { s with
      connection := none
      resetting := some s.resets.length
      resets := s.resets ++ [⟨own, false⟩]
      log := s.log ++ [.disconnect s.resets.length own] }

def dispose (s : GitSession V) : GitSession V :=
  { s with closed := true, disposal := true, log := s.log ++ [.closed] }

/-- A request that cannot be both, a write and cancelled, is refused. The others wait, a write
    for the last write and all reads, a read for the last write. -/
def enqueue (s : GitSession V) (r : GitRequest) (signal : Bool) : GitSession V :=
  let i := s.requests.length
  if signal && r.isGitMutation then
    let o := .error ⟨none, "Write requests cannot use read cancellation."⟩
    { s with
      requests := s.requests ++ [⟨r, signal, false, [], .settled o⟩]
      log := s.log ++ [.requested i r signal, .settled i o] }
  else if r.isGitMutation then
    { s with
      requests := s.requests ++ [⟨r, signal, false, s.writeBarrier.toList ++ s.reads, .queued⟩]
      writeBarrier := some i
      log := s.log ++ [.requested i r signal] }
  else
    { s with
      requests := s.requests ++ [⟨r, signal, false, s.writeBarrier.toList, .queued⟩]
      reads := i :: s.reads
      log := s.log ++ [.requested i r signal] }

/-- What the caller of a write is told of an error. -/
def operationError (id : OperationId) (e : GitError) : Outcome V :=
  .operation id (if e.code.isNone || e.terminal then "OUTCOME_UNKNOWN" else e.code.getD "") e.message

/-- The request has failed after it was ready to be sent. -/
def fail (s : GitSession V) (i : Nat) (r : Request V) (attempt : Option Nat) (e : GitError) :
    GitSession V :=
  if r.aborted then s.settle i .aborted
  else
    let s := if e.terminal && attempt.isSome && s.connection == attempt then s.forget true else s
    match r.request.operationId with
    | some id => s.settle i (operationError id e)
    | none => s.settle i (.error e)

def unknownOutcome : GitError :=
  ⟨some "OUTCOME_UNKNOWN",
    "The operation may have completed. Reconnect and check its outcome before trying again."⟩

/-- What an answer to `git_request` leads to. -/
def answer (s : GitSession V) (i : Nat) (r : Request V) (attempt : Option Nat)
    (reply : Except GitError V) : GitSession V :=
  match reply with
  | .error e => s.fail i r attempt e
  | .ok v =>
    if r.aborted then s.settle i .aborted
    else if s.closed then
      s.fail i r attempt (if r.request.operationId.isSome then unknownOutcome else closedError)
    else s.settle i (.value v)

/-- What an answer to `git_register_read` leads to. -/
def registered (s : GitSession V) (i : Nat) (r : Request V) (attempt : Option Nat)
    (captured : GitRequest) (reply : Except GitError String) : GitSession V :=
  match reply with
  | .error e => s.fail i r attempt e
  | .ok _ =>
    if r.aborted then (s.cancelRead i).settle i .aborted
    else if s.closed then (s.cancelRead i).fail i r attempt closedError
    else s.send i attempt captured

/-- The connection is there. -/
def connected (s : GitSession V) (i : Nat) (r : Request V) (c : Capabilities) : GitSession V :=
  if r.aborted then s.settle i .aborted
  else if s.closed then s.settle i (.error closedError)
  else
    match adapt c r.request with
    | .error message => s.settle i (.error ⟨none, message⟩)
    | .ok captured =>
      if r.signal then s.put i (.registering s.connection captured none) []
      else s.send i s.connection captured

/-- The request asks for the connection, or for a new one where there is none. -/
def connect (s : GitSession V) (i : Nat) : GitSession V :=
  match s.connection with
  | some c => s.put i (.connecting c) []
  | none =>
    { s with connection := some s.connections.length, connections := s.connections ++ [none] }.put i
      (.connecting s.connections.length) []

def resume (s : GitSession V) (i : Nat) (r : Request V) : Option (GitSession V) :=
  match r.phase with
  | .queued =>
    if s.opened r.barrier then
      if r.aborted then some (s.settle i .aborted)
      else if s.closed then some (s.settle i (.error closedError))
      else some (s.put i (.resetting s.resetting) [])
    else none
  | .resetting reset =>
    if reset.all fun n => s.resets[n]?.any Reset.finished then
      if s.closed then some (s.settle i (.error closedError)) else some (s.connect i)
    else none
  | .connecting c =>
    match s.connections[c]? with
    | some (some (.ok capabilities)) => some (s.connected i r capabilities)
    | some (some (.error e)) => some (s.settle i (.error e))
    | _ => none
  | .registering attempt captured (some reply) => some (s.registered i r attempt captured reply)
  | .sent attempt _ (some reply) => some (s.answer i r attempt reply)
  | _ => none

def step (s : GitSession V) : Event V → Option (GitSession V)
  | .request r signal => some (s.enqueue r signal)
  | .abort i => s.requests[i]?.bind fun r =>
    if r.signal then
      let s := { s with requests := s.requests.modify i fun r => { r with aborted := true } }
      -- Only a read that was sent listens, and only once.
      match r.phase with
      | .sent _ _ _ => some (if r.aborted then s else s.cancelRead i)
      | _ => some s
    else none
  | .dispose => some s.dispose
  | .forget => some (s.forget false)
  | .resume i => s.requests[i]?.bind fun r => s.resume i r
  | .readSettled i => s.requests[i]?.bind fun r =>
    if r.isSettled then some { s with reads := s.reads.filter fun k => k ≠ i } else none
  | .connected c r =>
    match s.connections[c]? with
    | some none => some { s with connections := s.connections.set c (some r) }
    | _ => none
  | .connectionFailed c =>
    match s.connections[c]? with
    | some (some (.error _)) =>
      some (if s.connection = some c then { s with connection := none } else s)
    | _ => none
  | .registered i reply => s.requests[i]?.bind fun r =>
    match r.phase with
    | .registering attempt captured none =>
      some (s.put i (.registering attempt captured (some reply)) [])
    | _ => none
  | .replied i reply => s.requests[i]?.bind fun r =>
    match r.phase with
    | .sent attempt captured none =>
      some (s.put i (.sent attempt captured (some reply)) [.replied i reply])
    | _ => none
  | .resetFinished n =>
    match s.resets[n]? with
    | some ⟨own, false⟩ =>
      some { s with resets := s.resets.set n ⟨own, true⟩, log := s.log ++ [.disconnected n] }
    | _ => none
  | .resetCleared n =>
    if (s.resets[n]?.any Reset.finished) && s.resetting = some n then
      some { s with resetting := none }
    else none

def new : GitSession V := ⟨[], false, false, none, [], none, [], none, [], []⟩

end GitSession

end Porthop.Session
