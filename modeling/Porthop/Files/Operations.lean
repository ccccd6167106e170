import Porthop.Lib.Run
import Porthop.Profile.Tunnels

/- File operations, their cancellation and their end (`files/operations.rs`), with the commands
   that edit and delete servers (`commands.rs`).

   Two locks meet here. An operation registers under the manager's lock, which an edit holds from
   before it saves until it has told the operations of the server to stop; a cancel takes the lock
   of the registry alone. Each step below is what happens under one lock at a time.

   Beside the state a record is kept of what was saved, what became of the operations and how
   many cancels were kept. -/
namespace Porthop.Files

open Profile (Uuid Server Config)

inductive Outcome where
  | cancelled
  | done
  deriving DecidableEq

/-- Where an operation is. A poll looks at the signal first and then at the work; when one of them
is ready the work is dropped, and then the guard. -/
inductive Phase where
  | waiting
  | polling
  | ended (outcome : Outcome)
  | dropped (outcome : Outcome)
  deriving DecidableEq

/-- A registered operation. `profile` is what its work was given, `staged` whether it has a file
that is not in its place yet; `serial` numbers the registrations and `seen` counts what had been
saved before this one. -/
structure Operation where
  id : Uuid
  server : Uuid
  cancel : Bool
  profile : Server
  phase : Phase
  staged : Bool
  serial : Nat
  seen : Nat

/-- A task that removes the file of an operation. -/
structure Task where
  owner : Nat
  finished : Bool

inductive Stage where
  | writing
  | written
  | told
  deriving DecidableEq

/-- The command that has the manager's lock; no new profile means that the server is deleted. -/
structure Edit where
  server : Uuid
  profile : Option Server
  connection : Bool
  stage : Stage

/-- What was saved of a server. -/
structure Write where
  server : Uuid
  profile : Option Server
  connection : Bool

/-- Where the shutdown is. It waits until nothing is registered, takes the clean-up tasks and
waits for one after the other, all within its time limit. -/
inductive Shutdown where
  | idle
  | draining
  | drained
  | awaiting (tasks : List Nat)
  | finished
  | timedOut
  deriving DecidableEq

structure System where
  entries : List Operation
  cancelled : List Uuid
  closing : Bool
  /-- The tasks nobody waits for yet, by number. -/
  cleanup : List Nat
  tasks : List Task
  config : Config
  edit : Option Edit
  shutdown : Shutdown
  writes : List Write
  /-- How many of the writes are those of commands that are through. -/
  through : Nat
  serials : Nat
  results : List (Nat × Outcome)
  kept : Nat

def initial (config : Config) : System where
  entries := []
  cancelled := []
  closing := false
  cleanup := []
  tasks := []
  config := config
  edit := none
  shutdown := .idle
  writes := []
  through := 0
  serials := 0
  results := []
  kept := 0

def find (config : Config) (id : Uuid) : Option Server := config.servers.find? fun s => s.id = id

namespace System

/-! ## The registry -/

def maxOperations : Nat := 8

def maxCancelled : Nat := 128

/-- The registration, with what the caller is answered. -/
def register (s : System) (server id : Uuid) : Except String Unit × System :=
  match find s.config server with
  | none => (.error "Server no longer exists.", s)
  | some profile =>
    if s.closing then (.error "Newport is shutting down", s)
    else if s.cancelled.contains id then
      (.error "File operation cancelled", { s with cancelled := s.cancelled.erase id })
    else if maxOperations ≤ s.entries.length then
      (.error "Too many file operations. Wait for one to finish.", s)
    else if s.entries.any fun e => e.id = id then (.error "File operation already exists", s)
    else
      (.ok (),
        { s with
          entries := s.entries ++ [⟨id, server, false, profile, .waiting, false, s.serials, s.writes.length⟩]
          serials := s.serials + 1 })

/-- A change of some of the operations. -/
def update (s : System) (p : Operation → Bool) (f : Operation → Operation) : System :=
  { s with entries := s.entries.map fun e => if p e then f e else e }

def send (e : Operation) : Operation := { e with cancel := true }

def cancelServer (s : System) (server : Uuid) : System := s.update (fun e => e.server = server) send

/-- A cancel of an operation that is not registered is kept; of too many the oldest is given up. -/
def filesCancel (s : System) (id : Uuid) : System :=
  if s.entries.any fun e => e.id = id then s.update (fun e => e.id = id) send
  else
    { s with
      cancelled := (if s.cancelled.length = maxCancelled then s.cancelled.tail else s.cancelled) ++ [id]
      kept := s.kept + 1 }

/-- A new clean-up task; those that are finished are forgotten. -/
def addCleanup (s : System) (owner : Nat) : System :=
  { s with
    cleanup := (s.cleanup.filter fun n => !(s.tasks[n]?.any Task.finished)) ++ [s.tasks.length]
    tasks := s.tasks ++ [⟨owner, false⟩] }

/-! ## One operation -/

/-- The operation, if it is registered. -/
def operation (s : System) (id : Uuid) : Option Operation := s.entries.find? fun e => e.id = id

/-- A step of the operation from one phase on. -/
def move (s : System) (id : Uuid) (p : Operation → Bool) (f : Operation → Operation) : Option System :=
  if s.entries.any fun e => e.id = id && p e then some (s.update (fun e => e.id = id) f) else none

/-- The signal is looked at first. -/
def poll (e : Operation) : Operation :=
  { e with phase := if e.cancel then .ended .cancelled else .polling }

/-- The work is dropped; a file that is not in its place is removed by a task of its own. -/
def dropWork (s : System) (id : Uuid) : Option System :=
  match s.operation id with
  | none => none
  | some e =>
    match e.phase with
    | .ended outcome =>
      let s := if e.staged then s.addCleanup e.serial else s
      some (s.update (fun e => e.id = id) fun e => { e with phase := .dropped outcome, staged := false })
    | _ => none

/-- The guard takes the operation out of the registry. -/
def dropGuard (s : System) (id : Uuid) : Option System :=
  match s.operation id with
  | none => none
  | some e =>
    match e.phase with
    | .dropped outcome =>
      some { s with
        entries := s.entries.filter fun e => e.id ≠ id
        results := s.results ++ [(e.serial, outcome)] }
    | _ => none

/-! ## The commands -/

/-- A connection is edited if a password comes with the profile or the profile connects
differently. -/
def reconnects (s : System) (server : Server) (password : Bool) : Bool :=
  password || (find s.config server.id).any fun old => !old.sameConnection server

def edited (config : Config) (e : Edit) : Config :=
  match e.profile with
  | some server => config.upsertServer server
  | none =>
    { config with
      servers := config.servers.filter fun s => s.id ≠ e.server
      tunnels := config.tunnels.filter fun t => t.serverId ≠ e.server }

/-- The save of an edit, which may fail. -/
def write (s : System) (stored : Bool) : Option System :=
  match s.edit with
  | none => none
  | some e =>
    if e.stage ≠ .writing then none
    else if stored then
      let config := edited s.config e
      some { s with
        config := config
        writes := s.writes ++ [⟨e.server, find config e.server, e.connection⟩]
        edit := some { e with stage := .written } }
    else some { s with edit := none }

/-- The operations of the server are told to stop. -/
def tell (s : System) : Option System :=
  match s.edit with
  | none => none
  | some e =>
    if e.stage = .written ∧ e.connection = true then
      some { s.cancelServer e.server with edit := some { e with stage := .told } }
    else none

/-- The command is through and gives the lock back. -/
def release (s : System) : Option System :=
  match s.edit with
  | none => none
  | some e =>
    if e.stage = .told ∨ (e.stage = .written ∧ e.connection = false) then
      some { s with edit := none, through := s.writes.length }
    else none

end System

/-! ## Steps -/

inductive Event where
  | register (server id : Uuid)
  | cancel (id : Uuid)
  | poll (id : Uuid)
  /-- The work goes on later. -/
  | pending (id : Uuid)
  | ready (id : Uuid)
  | stage (id : Uuid)
  | publish (id : Uuid)
  | dropWork (id : Uuid)
  | dropGuard (id : Uuid)
  | save (server : Server) (password : Bool)
  | delete (id : Uuid)
  | write (stored : Bool)
  | tell
  | release
  | cleaned (task : Nat)
  | shutdown
  | drained
  | take
  | awaited
  | giveUp
  deriving DecidableEq

namespace System

def step (s : System) : Event → Option System
  | .register server id => if s.edit.isNone then some (s.register server id).2 else none
  | .cancel id => some (s.filesCancel id)
  | .poll id => s.move id (fun e => e.phase = .waiting) poll
  | .pending id => s.move id (fun e => e.phase = .polling) fun e => { e with phase := .waiting }
  | .ready id => s.move id (fun e => e.phase = .polling) fun e => { e with phase := .ended .done }
  | .stage id => s.move id (fun e => e.phase = .polling) fun e => { e with staged := true }
  | .publish id => s.move id (fun e => e.phase = .polling) fun e => { e with staged := false }
  | .dropWork id => s.dropWork id
  | .dropGuard id => s.dropGuard id
  | .save server password =>
    if s.edit.isNone then
      some { s with edit := some ⟨server.id, some server, s.reconnects server password, .writing⟩ }
    else none
  | .delete id =>
    if s.edit.isNone && (find s.config id).isSome then
      some { s with edit := some ⟨id, none, true, .writing⟩ }
    else none
  | .write stored => s.write stored
  | .tell => s.tell
  | .release => s.release
  | .cleaned n =>
    if n < s.tasks.length then
      some { s with tasks := s.tasks.modify n fun t => { t with finished := true } }
    else none
  | .shutdown =>
    if s.shutdown = .idle then
      some { s.update (fun _ => true) send with closing := true, shutdown := .draining }
    else none
  | .drained =>
    if s.shutdown = .draining ∧ s.entries.isEmpty then some { s with shutdown := .drained } else none
  | .take =>
    if s.shutdown = .drained then some { s with shutdown := .awaiting s.cleanup, cleanup := [] }
    else none
  | .awaited =>
    match s.shutdown with
    | .awaiting [] => some { s with shutdown := .finished }
    | .awaiting (n :: ns) =>
      if s.tasks[n]?.any Task.finished then some { s with shutdown := .awaiting ns } else none
    | _ => none
  | .giveUp =>
    match s.shutdown with
    | .draining => some { s with shutdown := .timedOut }
    | .awaiting _ => some { s with shutdown := .timedOut }
    | _ => none

end System

end Porthop.Files
