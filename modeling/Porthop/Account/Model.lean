import Mathlib.Logic.Basic

/- The agents of one account and what they share (`session.rs`, `local_socket.rs`, `agent.rs`),
   and what the desktop makes of a refusal (`agent.rs`, `clipboard.rs`).

   Every step of an agent on the shared files is a step of its own, and the agents take turns in
   any order. A lock is held by one agent at a time; an agent that is killed has its locks
   released and its files left. -/
namespace Porthop.Account

abbrev Pid := Nat

/-- The files of the account that agents write or remove. -/
inductive Name where
  | snapshot
  | display
  | xauthority
  | agentClient
  | features
  | session
  | client
  | browserUrl
  | browserLease
  | nativeDisplay
  deriving DecidableEq

/-- A step of a start or of its clean-up. A removal that fails is an error or is ignored. -/
inductive Effect where
  | write (n : Name)
  | remove (n : Name) (must : Bool)
  | backend
  deriving DecidableEq

/-! ## Errors -/

inductive ErrorKind where
  | wouldBlock
  | timedOut
  | interrupted
  | storageFull
  | quotaExceeded
  | other
  deriving DecidableEq

/-- The kind of the frame that reports an error. -/
def errorKind : ErrorKind → Char
  | .wouldBlock | .timedOut | .interrupted | .storageFull | .quotaExceeded => 'T'
  | .other => 'E'

structure Answer where
  owner : Pid
  kind : ErrorKind
  text : String

/-- What a refused agent answers, by the client id it finds published. -/
def refusal (owner : Pid) (published : Option String) (client : String) : Answer :=
  if published = some client then ⟨owner, .wouldBlock, "previous agent is still closing"⟩
  else ⟨owner, .other, "Integration is active in another Newport installation."⟩

/-- The desktop's error for a frame, if it is one. -/
def checkedEvent (kind : Char) (data : String) : Option String :=
  if kind = 'E' then some ("Agent error: " ++ data)
  else if kind = 'T' then some ("SSH transport interrupted: " ++ data)
  else none

def holds (text : List Char) : List Char → Bool
  | [] => text.isEmpty
  | c :: cs => text.isPrefixOf (c :: cs) || holds text cs

def startsWith (text s : String) : Bool := text.toList.isPrefixOf s.toList

def retryable (error : String) : Bool :=
  !startsWith "Remote command failed" error && !startsWith "Agent error:" error &&
    (holds "SSH transport interrupted:".toList error.toList ||
      startsWith "SSH agent unavailable:" error ||
      holds "SSH command timed out".toList error.toList ||
      holds "SSH connection or authentication timed out".toList error.toList)

/-- The desktop connects again after the answer. -/
def Answer.reconnects (a : Answer) : Bool :=
  (checkedEvent (errorKind a.kind) a.text).all retryable

/-! ## Agents -/

/-- Where an agent is: in `Endpoint.fixed`, in `Session.start`, in `run`, or among the drops. -/
inductive Stage where
  | locking
  /-- The socket is owned by another agent; the published client id is read next. -/
  | refused (owner : Pid)
  | probing
  | connecting
  | rechecking (socket : Pid)
  | unlinking
  | binding
  | bound
  | locked
  | starting (todo : List Effect)
  | serving
  | closing (todo : List Effect)
  | unlocking
  | unbinding
  | releasing
  | dropping
  | ended (answer : Option Answer)

structure Agent where
  client : String
  clipboard : Bool
  stage : Stage
  /-- Its listener is open. -/
  listens : Bool

structure State where
  agents : Pid → Option Agent
  socketLock : Option Pid
  lock : Option Pid
  /-- The socket file, by the agent that bound it. -/
  socket : Option Pid
  /-- The files, by the agent that wrote them. -/
  files : Name → Option Pid
  /-- The agents that took the socket lock, the last one first. -/
  owners : List Pid

def State.initial : State := ⟨fun _ => none, none, none, none, fun _ => none, []⟩

/-- What `Session.start` does once it owns both locks. -/
def startup (clipboard : Bool) : List Effect :=
  .remove .snapshot true :: (if clipboard then [.backend, .backend] else []) ++
    [.write .agentClient, .remove .snapshot false, .remove .session false, .remove .client false,
      .remove .browserUrl false, .remove .browserLease false, .remove .nativeDisplay false,
      .write .features] ++
    (if clipboard then [.write .display, .write .xauthority]
      else [.remove .display false, .remove .xauthority false])

def cleanup : List Effect :=
  [.remove .snapshot false, .remove .display false, .remove .xauthority false,
    .remove .agentClient false, .remove .features false]

namespace State

variable (s : State)

def put (p : Pid) (a : Agent) : State :=
  { s with agents := fun q => if q = p then some a else s.agents q }

def setFile (n : Name) (writer : Option Pid) : State :=
  { s with files := fun m => if m = n then writer else s.files m }

def effect (p : Pid) : Effect → State
  | .write n => s.setFile n (some p)
  | .remove n _ => s.setFile n none
  | .backend => s

def clientOf (p : Pid) : Option String := (s.agents p).map (·.client)

/-- The client id in `agent-client`. -/
def published : Option String := (s.files .agentClient).bind s.clientOf

def listening (p : Pid) : Bool := (s.agents p).any (·.listens)

/-- The agent lets go of the socket lock. -/
def release (p : Pid) : State := { s with socketLock := if s.socketLock = some p then none else s.socketLock }

def unlock (p : Pid) : State := { s with lock := if s.lock = some p then none else s.lock }

def unbind (p : Pid) : State := { s with socket := if s.socket = some p then none else s.socket }

/-- The next step of an agent. -/
def go (p : Pid) (a : Agent) : Option State :=
  match a.stage with
  | .locking =>
    match s.socketLock with
    | some owner => some (s.put p { a with stage := .refused owner })
    | none => some { s.put p { a with stage := .probing } with
        socketLock := some p, owners := p :: s.owners }
  | .refused owner =>
    some (s.put p { a with stage := .ended (some (refusal owner s.published a.client)) })
  | .probing =>
    some (s.put p { a with stage := if s.socket.isSome then .connecting else .binding })
  | .connecting =>
    match s.socket with
    | none => some (s.put p { a with stage := .binding })
    | some q =>
      if s.listening q then some ((s.release p).put p { a with stage := .refused q })
      else some (s.put p { a with stage := .rechecking q })
  | .rechecking q =>
    if s.socket = some q then some (s.put p { a with stage := .unlinking })
    else some ((s.release p).put p { a with stage := .ended none })
  | .unlinking => some { s.put p { a with stage := .binding } with socket := none }
  | .binding =>
    match s.socket with
    | some q => some ((s.release p).put p { a with stage := .refused q })
    | none => some { s.put p { a with stage := .bound, listens := true } with socket := some p }
  | .bound =>
    match s.lock with
    | some _ => some (s.put p { a with stage := .unbinding })
    | none => some { s.put p { a with stage := .locked } with lock := some p }
  | .locked => some (s.put p { a with stage := .starting (startup a.clipboard) })
  | .starting [] => some (s.put p { a with stage := .serving })
  | .starting (e :: todo) => some ((s.effect p e).put p { a with stage := .starting todo })
  | .serving => some (s.put p { a with stage := .closing cleanup, listens := false })
  | .closing [] => some (s.put p { a with stage := .unlocking })
  | .closing (e :: todo) => some ((s.effect p e).put p { a with stage := .closing todo })
  | .unlocking => some ((s.unlock p).put p { a with stage := .unbinding })
  | .unbinding => some ((s.unbind p).put p { a with stage := .releasing })
  | .releasing => some ((s.release p).put p { a with stage := .dropping })
  | .dropping => some (s.put p { a with stage := .ended none, listens := false })
  | .ended _ => none

/-- The next step of an agent fails, and what it has is dropped. -/
def fail (p : Pid) (a : Agent) : Option State :=
  match a.stage with
  | .locking => some (s.put p { a with stage := .ended none })
  | .probing | .connecting | .rechecking _ | .unlinking | .binding =>
    some ((s.release p).put p { a with stage := .ended none })
  | .bound => some (s.put p { a with stage := .unbinding })
  | .locked => some (s.put p { a with stage := .unlocking })
  | .starting _ => some (s.put p { a with stage := .closing cleanup })
  | .serving => some (s.put p { a with stage := .closing cleanup, listens := false })
  | _ => none

/-- A removal fails, and the error is ignored. -/
def skip (p : Pid) (a : Agent) : Option State :=
  match a.stage with
  | .starting (.remove _ false :: todo) => some (s.put p { a with stage := .starting todo })
  | .closing (_ :: todo) => some (s.put p { a with stage := .closing todo })
  | .unbinding => some (s.put p { a with stage := .releasing })
  | _ => none

end State

inductive Label where
  | spawn (p : Pid) (client : String) (clipboard : Bool)
  | go (p : Pid)
  | fail (p : Pid)
  | skip (p : Pid)
  | kill (p : Pid)
  /-- A serving agent writes a file of its service. -/
  | publish (p : Pid) (n : Name)

def Label.actor : Label → Pid
  | .spawn p _ _ | .go p | .fail p | .skip p | .kill p | .publish p _ => p

def step (s : State) : Label → Option State
  | .spawn p client clipboard =>
    match s.agents p with
    | none => some (s.put p ⟨client, clipboard, .locking, false⟩)
    | some _ => none
  | .go p => (s.agents p).bind (s.go p)
  | .fail p => (s.agents p).bind (s.fail p)
  | .skip p => (s.agents p).bind (s.skip p)
  | .kill p =>
    (s.agents p).bind fun a =>
      match a.stage with
      | .ended _ => none
      | _ => some (((s.release p).unlock p).put p { a with stage := .ended none, listens := false })
  | .publish p n =>
    (s.agents p).bind fun a =>
      match a.stage with
      | .serving => if n = .agentClient then none else some (s.setFile n (some p))
      | _ => none

namespace Stage

/-- The agent holds the socket lock. -/
def holdsSocket : Stage → Bool
  | .locking | .refused _ | .dropping | .ended _ => false
  | _ => true

/-- The agent holds the second lock. -/
def holdsLock : Stage → Bool
  | .locked | .starting _ | .serving | .closing _ | .unlocking => true
  | _ => false

/-- The agent has published its client id, and has not begun to remove its files. -/
def published : Stage → Bool
  | .starting todo => .write .agentClient ∉ todo
  | .serving => true
  | _ => false

end Stage

end Porthop.Account
