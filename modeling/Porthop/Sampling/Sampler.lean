import Porthop.Profile.Changes

/- The sampler of metrics (`metrics_sampler.rs`), with the commands that hold the history
   barrier (`commands.rs`).

   A job asks for samples: one for each server that is saved, again and again, or one that
   was asked for by hand. A job goes from one of its waits to the next, so a run is a list of
   events, each the step of one party. A lock is free when no job is in a phase that holds
   it. What a command takes is the barrier; what it then does to the profile is one step, as it
   holds the manager too.

   What a collection answers, and whether a row can be stored, the event says. The data of a
   reading is a parameter. The store keeps every row it is given. -/
namespace Porthop.Sampling

open Porthop.Profile

/-- What a server shows, as the view gets it. -/
structure Reading (δ : Type) where
  data : δ
  sampledAt : Nat
  historyError : Option String
  collectionError : Option String
  deriving DecidableEq

abbrev Outcome (δ : Type) := Except String (Reading δ)

/-- The entry of a server in the cache. -/
structure Cached (δ : Type) where
  profile : Server
  generation : Nat
  result : Outcome δ

/-- Whether the entry is one of the connection that is asked for. -/
def Cached.isFor {δ : Type} (c : Cached δ) (server : Server) (revision : Nat) : Bool :=
  c.profile.sameConnection server && c.generation = revision

/-- Where a job is. From `queued` on it has a clone of the gate, from `locked` on the gate's
    lock, and from `guarded` on the barrier, until it has returned. -/
inductive Phase (δ : Type) where
  | idle
  | called (requested : Nat)
  | queued (requested gate : Nat)
  | locked (requested gate : Nat)
  | sharing (gate : Nat)
  | collecting (gate started : Nat)
  | collected (gate started sampledAt : Nat) (result : Except String δ)
  | guarded (gate started sampledAt : Nat) (result : Except String δ)
  | recording (gate sampledAt : Nat) (data : δ)
  | publishing (gate : Nat) (result : Outcome δ)
  | published (gate : Nat) (result : Outcome δ)
  | returned (result : Outcome δ)
  | finished
  | aborted

namespace Phase

variable {δ : Type}

def clone : Phase δ → Option Nat
  | .queued _ g | .locked _ g | .sharing g | .collecting g _ | .collected g _ _ _
  | .guarded g _ _ _ | .recording g _ _ | .publishing g _ | .published g _ => some g
  | _ => none

/-- The lock of the gate is held. -/
def locks : Phase δ → Bool
  | .locked _ _ | .sharing _ | .collecting _ _ | .collected _ _ _ _ | .guarded _ _ _ _
  | .recording _ _ _ | .publishing _ _ | .published _ _ => true
  | _ => false

/-- The barrier is held. -/
def guards : Phase δ → Bool
  | .guarded _ _ _ _ | .recording _ _ _ | .publishing _ _ | .published _ _ => true
  | _ => false

def isFinished : Phase δ → Bool
  | .finished | .aborted => true
  | _ => false

def isCollecting : Phase δ → Bool
  | .collecting _ _ => true
  | _ => false

end Phase

/-- A worker, which is periodic, or one sample. A worker is `listed` while it has its place
    among the profiles, and `stopped` once it was told to abort. -/
structure Job (δ : Type) where
  server : Server
  revision : Nat
  periodic : Bool
  listed : Bool
  stopped : Bool
  phase : Phase δ

/-- Where a first reading is: it has registered and looks, or it waits, and it may have been
    notified since it registered. -/
inductive Wait (δ : Type) where
  | looking (notified : Bool)
  | waiting (notified : Bool)
  | returned (result : Outcome δ)

structure Waiter (δ : Type) where
  server : Server
  revision : Nat
  wait : Wait δ

def Waiter.notify {δ : Type} (w : Waiter δ) : Waiter δ :=
  match w.wait with
  | .looking _ => { w with wait := .looking true }
  | .waiting _ => { w with wait := .waiting true }
  | .returned _ => w

structure Row (δ : Type) where
  server : Server
  revision : Nat
  time : Nat
  data : δ

/-- What a command that holds the barrier does next. -/
inductive Command where
  | saveServer (server : Server) (password : Option String)
  | deleteServer (id : Uuid)
  | cleanUp (id : Uuid)
  | clearRows
  | clearCache
  | leave

/-- What the reconciliation does next, with the servers it saw. -/
inductive Reconcile where
  | cached (servers : List (Server × Nat))
  | gates (servers : List (Server × Nat))

/-- A collection that ended. -/
structure Collection (δ : Type) where
  server : Server
  revision : Nat
  result : Except String δ

structure Sampler (ρ V δ : Type) where
  manager : Connections ρ V
  latest : Uuid → Option (Cached δ)
  sampling : Uuid → Option Nat
  /-- The gates so far, each with the time its last sample was completed. -/
  gates : List (Option Nat)
  jobs : List (Job δ)
  waiters : List (Waiter δ)
  command : Option Command
  reconcile : Option Reconcile
  rows : List (Row δ)
  /-- What has been collected, stored and published so far. -/
  collections : List (Collection δ)
  recorded : List (Row δ)
  publications : List (Cached δ)

inductive Event (ρ δ : Type) where
  | manager (e : Happening ρ)
  | begin (c : Command)
  | command (result : Except String Unit)
  | reconcile
  | worker (n : Nat)
  | abort (n : Nat)
  | sample (id : Uuid)
  /-- A job goes on that needs no answer. -/
  | proceed (n : Nat)
  | collected (n : Nat) (result : Except String δ) (sampledAt : Nat)
  | check (n wall : Nat)
  | record (n : Nat) (result : Except String Unit)
  | firstReading (id : Uuid)
  | look (k : Nat)
  | wake (k : Nat)
  | timeout (k : Nat)

def changed : String := "Server connection changed. Refresh again."

def tooLong : String := "The server is taking too long to respond. Try refreshing."

def historyFailed (error : String) : String :=
  "Live metrics loaded, but local history could not be saved: " ++ error

/-- An event of the manager that saves or deletes a server is a command's. -/
def edits {ρ : Type} : Happening ρ → Bool
  | .saveServer _ _ _ | .deleteServer _ _ => true
  | _ => false

namespace Sampler

variable {ρ V δ : Type}

def setPhase (s : Sampler ρ V δ) (n : Nat) (p : Phase δ) : Sampler ρ V δ :=
  { s with jobs := s.jobs.modify n fun j => { j with phase := p } }

def setWait (s : Sampler ρ V δ) (k : Nat) (w : Wait δ) : Sampler ρ V δ :=
  { s with waiters := s.waiters.modify k fun waiter => { waiter with wait := w } }

def gateFree (s : Sampler ρ V δ) (gate : Nat) : Bool :=
  !s.jobs.any fun j => j.phase.clone = some gate && j.phase.locks

def historyFree (s : Sampler ρ V δ) : Bool :=
  s.command.isNone && !s.jobs.any fun j => j.phase.guards

/-! ## A sample -/

/-- The gate of the server, and a new one if there is none. -/
def enter (s : Sampler ρ V δ) (n requested : Nat) (id : Uuid) : Sampler ρ V δ :=
  match s.sampling id with
  | some gate => s.setPhase n (.queued requested gate)
  | none => { s with
      sampling := Manager.update s.sampling id (some s.gates.length)
      gates := s.gates ++ [none] }.setPhase n (.queued requested s.gates.length)

/-- The outcome of an earlier sample, if it is of the connection that is asked for. -/
def shared (s : Sampler ρ V δ) (server : Server) (revision : Nat) : Option (Outcome δ) :=
  (s.latest server.id).bind fun c => if c.isFor server revision then some c.result else none

def begin (s : Sampler ρ V δ) (n gate requested : Nat) (j : Job δ) : Sampler ρ V δ :=
  if !s.manager.matchesConnection j.server j.revision then
    s.setPhase n (.returned (.error changed))
  else if ((s.gates[gate]?).bind id).any fun completed => requested ≤ completed then
    s.setPhase n (.sharing gate)
  else s.setPhase n (.collecting gate s.manager.now)

/-- What the cache keeps of a result: a failure keeps the last good reading. -/
def cache (s : Sampler ρ V δ) (server : Server) (revision : Nat) (result : Outcome δ) :
    Cached δ :=
  match result, s.latest server.id with
  | .error e, some ⟨profile, generation, .ok previous⟩ =>
    if profile.sameConnection server && generation = revision then
      ⟨server, revision, .ok { previous with collectionError := some e }⟩
    else ⟨server, revision, result⟩
  | _, _ => ⟨server, revision, result⟩

def publish (s : Sampler ρ V δ) (server : Server) (revision : Nat) (result : Outcome δ) :
    Sampler ρ V δ :=
  let c := s.cache server revision result
  { s with
    latest := Manager.update s.latest server.id (some c)
    waiters := s.waiters.map Waiter.notify
    publications := s.publications ++ [c] }

def proceed (s : Sampler ρ V δ) (n : Nat) (j : Job δ) : Option (Sampler ρ V δ) :=
  match j.phase with
  | .called requested => some (s.enter n requested j.server.id)
  | .queued requested gate =>
    if s.gateFree gate then some (s.setPhase n (.locked requested gate)) else none
  | .locked requested gate => some (s.begin n gate requested j)
  | .sharing gate =>
    match s.shared j.server j.revision with
    | some result => some (s.setPhase n (.returned result))
    | none => some (s.setPhase n (.collecting gate s.manager.now))
  | .collected gate started sampledAt result =>
    if s.historyFree then some (s.setPhase n (.guarded gate started sampledAt result)) else none
  | .publishing gate result =>
    some ((s.publish j.server j.revision result).setPhase n (.published gate result))
  | .published gate result => some ({ s with
      gates := s.gates.set gate (some s.manager.now) }.setPhase n (.returned result))
  | _ => none

def collect (s : Sampler ρ V δ) (c : Collection δ) : Sampler ρ V δ :=
  { s with collections := s.collections ++ [c] }

/-- The connection is looked at again before anything is stored. -/
def check (s : Sampler ρ V δ) (n gate started sampledAt wall : Nat) (j : Job δ)
    (result : Except String δ) : Sampler ρ V δ :=
  if !s.manager.matchesConnection j.server j.revision then
    s.setPhase n (.returned (.error changed))
  else
    match result with
    | .error e => s.setPhase n (.publishing gate (.error e))
    | .ok data => { s with
        manager := s.manager.observeConnection j.revision
          ⟨j.server, started, s.manager.now, wall, .ok ()⟩ }.setPhase n
            (.recording gate sampledAt data)

def record (s : Sampler ρ V δ) (n gate sampledAt : Nat) (j : Job δ) (data : δ) :
    Except String Unit → Sampler ρ V δ
  | .ok () =>
    let row := ⟨j.server, j.revision, sampledAt, data⟩
    { s with rows := s.rows ++ [row], recorded := s.recorded ++ [row] }.setPhase n
      (.publishing gate (.ok ⟨data, sampledAt, none, none⟩))
  | .error e => s.setPhase n
      (.publishing gate (.ok ⟨data, sampledAt, some (historyFailed e), none⟩))

/-! ## The workers -/

/-- The servers that are saved, with the revisions of their connections. -/
def servers (s : Sampler ρ V δ) : List (Server × Nat) :=
  s.manager.config.servers.map fun server => (server, s.manager.connectionRevision server.id)

def current (servers : List (Server × Nat)) (id : Uuid) (profile : Server) (revision : Nat) :
    Bool :=
  servers.any fun p => p.1.id = id && profile.sameConnection p.1 && revision = p.2

/-- A worker whose connection is gone is told to abort. -/
def retainJob (servers : List (Server × Nat)) (j : Job δ) : Job δ :=
  if j.listed then
    if current servers j.server.id j.server j.revision then
      { j with listed := !j.phase.isFinished }
    else { j with listed := false, stopped := true }
  else j

/-- Only what is of a connection the reconciliation saw stays in the cache. -/
def retainLatest (s : Sampler ρ V δ) (servers : List (Server × Nat)) :
    Uuid → Option (Cached δ) := fun id =>
  (s.latest id).bind fun c =>
    if current servers id c.profile c.generation then some c else none

/-- A gate stays while a job has a clone of it. -/
def retainGates (s : Sampler ρ V δ) (servers : List (Server × Nat)) : Uuid → Option Nat :=
  fun id => (s.sampling id).bind fun gate =>
    if (servers.any fun p => p.1.id = id) || s.jobs.any fun j => j.phase.clone = some gate then
      some gate
    else none

def spawn (jobs : List (Job δ)) : List (Server × Nat) → List (Job δ)
  | [] => jobs
  | (server, revision) :: servers =>
    if jobs.any fun j => j.listed && j.server.id = server.id then spawn jobs servers
    else spawn (jobs ++ [⟨server, revision, true, true, false, .idle⟩]) servers

def reconciled (s : Sampler ρ V δ) : Sampler ρ V δ :=
  match s.reconcile with
  | none => { s with
      jobs := s.jobs.map (retainJob s.servers)
      reconcile := some (.cached s.servers) }
  | some (.cached servers) => { s with
      latest := s.retainLatest servers
      reconcile := some (.gates servers) }
  | some (.gates servers) => { s with
      sampling := s.retainGates servers
      jobs := spawn s.jobs servers
      reconcile := none }

/-- The timer of a worker. -/
def tick (s : Sampler ρ V δ) (n : Nat) (j : Job δ) : Option (Sampler ρ V δ) :=
  match j.periodic, j.phase with
  | true, .idle | true, .returned _ =>
    if s.manager.matchesConnection j.server j.revision then
      some (s.setPhase n (.called s.manager.now))
    else some (s.setPhase n .finished)
  | _, _ => none

/-! ## Commands -/

section
variable (A : Addresses)

/-- The command holds the barrier, and what it waited for has ended. -/
def commanded (s : Sampler ρ V δ) (result : Except String Unit) : Command → Sampler ρ V δ
  | .saveServer server password => { s with
      manager := s.manager.orElse (s.manager.saveServer A server password result)
      command := some .leave }
  | .deleteServer id =>
    match s.manager.deleteServer A id result with
    | .ok m => { s with manager := m, command := some (.cleanUp id) }
    | .error _ => { s with command := some .leave }
  | .cleanUp id =>
    match result with
    | .ok () => { s with
        rows := s.rows.filter fun r => r.server.id ≠ id
        command := some .leave }
    | .error _ => { s with command := some .leave }
  | .clearRows =>
    match result with
    | .ok () => { s with rows := [], command := some .clearCache }
    | .error _ => { s with command := some .clearCache }
  | .clearCache => { s with latest := fun _ => none, command := some .leave }
  | .leave => { s with command := none }

/-- The commands that take the barrier. -/
def takes : Command → Bool
  | .saveServer _ _ | .deleteServer _ | .clearRows => true
  | _ => false

def lookup (s : Sampler ρ V δ) (id : Uuid) : Option (Server × Nat) :=
  (s.manager.config.servers.find? fun server => server.id = id).map fun server =>
    (server, s.manager.connectionRevision id)

/-! ## First readings -/

def look (s : Sampler ρ V δ) (k : Nat) (w : Waiter δ) : Option (Sampler ρ V δ) :=
  match w.wait with
  | .looking notified =>
    match s.shared w.server w.revision with
    | some result => some (s.setWait k (.returned result))
    | none => some (s.setWait k (.waiting notified))
  | _ => none

def wake (s : Sampler ρ V δ) (k : Nat) (w : Waiter δ) : Option (Sampler ρ V δ) :=
  match w.wait with
  | .waiting true => some (s.setWait k (.looking false))
  | _ => none

def timeout (s : Sampler ρ V δ) (k : Nat) (w : Waiter δ) : Option (Sampler ρ V δ) :=
  match w.wait with
  | .returned _ => none
  | _ => some (s.setWait k (.returned (.error tooLong)))

/-! ## Steps -/

variable [DecidableEq V] (toValue : Content ρ → V)

def step (s : Sampler ρ V δ) : Event ρ δ → Option (Sampler ρ V δ)
  | .manager e =>
    if edits e then none
    else (s.manager.step A toValue e).map fun m => { s with manager := m }
  | .begin c => if takes c && s.historyFree then some { s with command := some c } else none
  | .command result => s.command.map (s.commanded A result)
  | .reconcile => some s.reconciled
  | .worker n => (s.jobs[n]?).bind (s.tick n)
  | .abort n => (s.jobs[n]?).bind fun j => if j.stopped then some (s.setPhase n .aborted) else none
  | .sample id => (s.lookup id).map fun p =>
    { s with jobs := s.jobs ++ [⟨p.1, p.2, false, false, false, .called s.manager.now⟩] }
  | .proceed n => (s.jobs[n]?).bind (s.proceed n)
  | .collected n result sampledAt => (s.jobs[n]?).bind fun j =>
    match j.phase with
    | .collecting gate started =>
      some ((s.collect ⟨j.server, j.revision, result⟩).setPhase n
        (.collected gate started sampledAt result))
    | _ => none
  | .check n wall => (s.jobs[n]?).bind fun j =>
    match j.phase with
    | .guarded gate started sampledAt result =>
      some (s.check n gate started sampledAt wall j result)
    | _ => none
  | .record n result => (s.jobs[n]?).bind fun j =>
    match j.phase with
    | .recording gate sampledAt data => some (s.record n gate sampledAt j data result)
    | _ => none
  | .firstReading id => (s.lookup id).map fun p =>
    { s with waiters := s.waiters ++ [⟨p.1, p.2, .looking false⟩] }
  | .look k => (s.waiters[k]?).bind (s.look k)
  | .wake k => (s.waiters[k]?).bind (s.wake k)
  | .timeout k => (s.waiters[k]?).bind (s.timeout k)

/-- The sampler of a manager that has just been made. -/
def initial (manager : Connections ρ V) : Sampler ρ V δ :=
  ⟨manager, fun _ => none, fun _ => none, [], [], [], none, none, [], [], [], []⟩

end

end Sampler

end Porthop.Sampling
