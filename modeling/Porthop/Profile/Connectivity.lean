import Porthop.Lib.Run
import Porthop.Profile.Commands

/- What is known of the connections to the servers, and the snapshots that report it
   (`connectivity.rs`, and in `manager.rs` what decides which results count).

   An attempt to connect ends with a result that is delivered late, in one of two ways: by who
   made the attempt, with the revision of the connection that held before it, or through a
   channel, with the time of its start. A command that saves or deletes a server holds the
   manager from its first look at the configuration until the new one counts, so it is one
   step; all else may come in between any two steps.

   Both clocks count nanoseconds. What else the manager publishes is a parameter, as is the
   value a snapshot is turned into. -/
namespace Porthop.Profile

open Manager (update nonempty)

structure Observation where
  server : Server
  started : Nat
  finished : Nat
  finishedWall : Nat
  result : Except String Unit

structure Connectivity where
  observed : Option Nat
  observedWall : Option Nat
  succeeded : Option Nat
  error : Option String

structure Health where
  status : String
  error : Option String
  deriving DecidableEq

def freshFor : Nat := 60 * 10 ^ 9

namespace Connectivity

def default : Connectivity := ⟨none, none, none, none⟩

def observeAt (c : Connectivity) (o : Observation) : Connectivity :=
  match o.result with
  | .ok () =>
    -- A success counts from its end.
    if c.observed.any fun t => o.finished < t then c
    else ⟨some o.finished, some o.finishedWall, some o.finished, none⟩
  | .error e =>
    if (c.observed.any fun t => o.started < t) || (c.succeeded.any fun t => o.started ≤ t) then c
    else ⟨some o.finished, some o.finishedWall, c.succeeded, some e⟩

def health (c : Connectivity) (now wall : Nat) : Health :=
  let fresh := (c.observed.any fun t => now - t < freshFor) &&
    c.observedWall.any fun t => t ≤ wall && wall - t < freshFor
  ⟨if !fresh then "unknown"
    else if c.error.isSome then "error"
    else if c.succeeded.isSome then "reachable"
    else "unknown", c.error⟩

end Connectivity

/-- An attempt that has started, with the revision that held when its server was looked up. -/
structure Attempt where
  server : Server
  revision : Nat
  started : Nat

/-- What a snapshot shows but for its own number. -/
structure Content (ρ : Type) where
  instanceId : Uuid
  config : Config
  loadError : Option String
  health : Uuid → Option String
  connectivity : Uuid → Option Health
  connectionRevisions : Uuid → Option Nat
  other : ρ

structure Snapshot (ρ : Type) where
  revision : Nat
  content : Content ρ

/-- The manager, and around it the clock, the attempts under way and the channel. -/
structure Connections (ρ V : Type) where
  instanceId : Uuid
  config : Config
  loadError : Option String
  connectionRevisions : Uuid → Option Nat
  nextConnectionRevision : Nat
  connectionChangedAt : Uuid → Option Nat
  connectivity : Uuid → Option Connectivity
  version : Nat × V
  other : ρ
  now : Nat
  /-- Servers that were looked up, with the revision of their connection. -/
  captured : List (Server × Nat)
  attempts : List Attempt
  channel : List Observation

inductive Happening (ρ : Type) where
  | tick (d : Nat)
  | saveServer (server : Server) (password : Option String) (stored : Except String Unit)
  | deleteServer (id : Uuid) (stored : Except String Unit)
  | saveTunnels (tunnels : List Tunnel) (stored : Except String Unit)
  | rememberIntegration (id : Uuid) (browser enabled : Bool) (stored : Except String Unit)
  | runtime (other : ρ)
  | capture (id : Uuid)
  | start (n : Nat)
  | observe (n : Nat) (wall : Nat) (result : Except String Unit)
  | report (server : Server) (started wall : Nat) (result : Except String Unit)
  | receive
  | lag
  /-- A snapshot, with what the clocks show as it looks at each server. -/
  | snapshot (clocks : Uuid → Nat × Nat)

namespace Connections

variable {ρ V : Type} (A : Addresses)

def connectionRevision (m : Connections ρ V) (id : Uuid) : Nat :=
  (m.connectionRevisions id).getD 0

def advanceConnectionRevision (m : Connections ρ V) (id : Uuid) : Connections ρ V :=
  { m with
    connectionChangedAt := update m.connectionChangedAt id (some m.now)
    connectivity := update m.connectivity id none
    nextConnectionRevision := m.nextConnectionRevision + 1
    connectionRevisions := update m.connectionRevisions id (some (m.nextConnectionRevision + 1)) }

def matchesConnection (m : Connections ρ V) (server : Server) (revision : Nat) : Bool :=
  m.connectionRevision server.id = revision &&
    m.config.servers.any fun current => current.id = server.id && current.sameConnection server

/-- What is known of a server with one observation more. -/
def hear (m : Connections ρ V) (o : Observation) : Connections ρ V :=
  let known := (m.connectivity o.server.id).getD Connectivity.default
  { m with connectivity := update m.connectivity o.server.id (some (known.observeAt o)) }

def observeConnection (m : Connections ρ V) (revision : Nat) (o : Observation) : Connections ρ V :=
  if m.matchesConnection o.server revision then m.hear o else m

/-- An observation from the channel. -/
def connectionEvent (m : Connections ρ V) (o : Observation) : Connections ρ V :=
  if (m.connectionChangedAt o.server.id).any fun t => o.started < t then m
  else if m.matchesConnection o.server (m.connectionRevision o.server.id) then m.hear o
  else m

/-! ## Snapshots -/

/-- Only the servers that are saved are kept, each with an entry. -/
def retained (m : Connections ρ V) : Uuid → Option Connectivity := fun id =>
  if m.config.servers.any fun s => s.id = id then
    some ((m.connectivity id).getD Connectivity.default)
  else none

def content (m : Connections ρ V) (clocks : Uuid → Nat × Nat) : Content ρ :=
  let connectivity := fun id => (m.retained id).map fun c => c.health (clocks id).1 (clocks id).2
  ⟨m.instanceId, m.config, m.loadError, fun id => (connectivity id).map Health.status,
    connectivity, m.connectionRevisions, m.other⟩

section
variable [DecidableEq V] (toValue : Content ρ → V)

def snapshot (m : Connections ρ V) (clocks : Uuid → Nat × Nat) : Snapshot ρ × Connections ρ V :=
  let payload := toValue (m.content clocks)
  let version := if m.version.2 ≠ payload then (m.version.1 + 1, payload) else m.version
  (⟨version.1, m.content clocks⟩, { m with connectivity := m.retained, version := version })

/-! ## Commands -/

def save (m : Connections ρ V) (config : Config) (stored : Except String Unit) :
    Except String (Connections ρ V) :=
  match m.loadError with
  | some e => .error e
  | none => do
    config.validate A
    stored
    .ok { m with config := config }

def saveServer (m : Connections ρ V) (server : Server) (password : Option String)
    (stored : Except String Unit) : Except String (Connections ρ V) := do
  server.validate A
  let isNew := !m.config.servers.any fun s => s.id = server.id
  let reconnect := nonempty password ||
    (m.config.servers.find? fun s => s.id = server.id).any fun s => !s.sameConnection server
  let m ← m.save A (m.config.upsertServer server) stored
  .ok (if reconnect || isNew then m.advanceConnectionRevision server.id else m)

def deleteServer (m : Connections ρ V) (id : Uuid) (stored : Except String Unit) :
    Except String (Connections ρ V) :=
  match m.config.servers.find? fun s => s.id = id with
  | none => .error "Server no longer exists."
  | some _ =>
    m.save A ⟨m.config.servers.filter fun s => s.id ≠ id,
      m.config.tunnels.filter fun t => t.serverId ≠ id⟩ stored

def preference (s : Server) (browser : Bool) : Bool :=
  if browser then s.browserEnabled else s.clipboardEnabled

def remember (id : Uuid) (browser enabled : Bool) : List Server → List Server
  | [] => []
  | s :: servers =>
    if s.id = id then
      (if browser then { s with browserEnabled := enabled }
        else { s with clipboardEnabled := enabled }) :: servers
    else s :: remember id browser enabled servers

def rememberIntegration (m : Connections ρ V) (id : Uuid) (browser enabled : Bool)
    (stored : Except String Unit) : Except String (Connections ρ V) :=
  match m.config.servers.find? fun s => s.id = id with
  | none => .error "Server no longer exists."
  | some s =>
    if preference s browser = enabled then .ok m
    else m.save A { m.config with servers := remember id browser enabled m.config.servers } stored

/-- A command that fails leaves the manager as it was. -/
def orElse (m : Connections ρ V) (r : Except String (Connections ρ V)) : Connections ρ V :=
  match r with
  | .ok m => m
  | .error _ => m

def step (m : Connections ρ V) : Happening ρ → Option (Connections ρ V)
  | .tick d => some { m with now := m.now + d }
  | .saveServer server password stored => some (m.orElse (m.saveServer A server password stored))
  | .deleteServer id stored => some (m.orElse (m.deleteServer A id stored))
  | .saveTunnels tunnels stored =>
    some (m.orElse (m.save A { m.config with tunnels := tunnels } stored))
  | .rememberIntegration id browser enabled stored =>
    some (m.orElse (m.rememberIntegration A id browser enabled stored))
  | .runtime other => some { m with other := other }
  | .capture id => (m.config.servers.find? fun s => s.id = id).map fun s =>
    { m with captured := (s, m.connectionRevision id) :: m.captured }
  | .start n => m.captured[n]?.map fun c =>
    { m with attempts := ⟨c.1, c.2, m.now⟩ :: m.attempts }
  | .observe n wall result => m.attempts[n]?.map fun a =>
    { m with attempts := m.attempts.eraseIdx n }.observeConnection a.revision
      ⟨a.server, a.started, m.now, wall, result⟩
  | .report server started wall result =>
    if started ≤ m.now then
      some { m with channel := m.channel ++ [⟨server, started, m.now, wall, result⟩] }
    else none
  | .receive => m.channel.head?.map fun o => { m with channel := m.channel.tail }.connectionEvent o
  -- The channel is full, and the oldest observation is lost.
  | .lag => m.channel.head?.map fun _ => { m with channel := m.channel.tail }
  | .snapshot clocks => some (m.snapshot toValue clocks).2

/-- The manager of a valid configuration, or of none. -/
def initial (config : Config) (loadError : Option String) (instanceId : Uuid) (other : ρ)
    (null : V) (now : Nat) : Connections ρ V :=
  ⟨instanceId, config, loadError, fun _ => none, 0, fun _ => none, fun _ => none, (0, null), other,
    now, [], [], []⟩

def new (stored : Except String Config) (instanceId : Uuid) (other : ρ) (null : V) (now : Nat) :
    Connections ρ V :=
  match (do
    let config ← stored
    config.validate A
    .ok config) with
  | .ok config => initial config none instanceId other null now
  | .error e => initial ⟨[], []⟩ (some e) instanceId other null now

end

end Connections

end Porthop.Profile
