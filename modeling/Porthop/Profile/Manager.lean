import Porthop.Profile.Tunnels

/- The manager of tunnels: its commands, and the tasks that forward the ports
   (`manager.rs`, `commands.rs`).

   A command holds the manager until it ends, and waits on the way: for the store, for a task it
   stops, for what else belongs to a server. Tasks go on while it waits. Every choice of the
   surroundings is an event, so a run is a list of events. A task that is being stopped stays
   among the tasks until it has ended. -/
namespace Porthop.Profile

inductive Status where
  | disconnected
  | connecting
  | connected
  | reconnecting
  | error
  deriving DecidableEq

/-- What a task does: it connects, forwards, waits to connect again, has failed for good and
    given its ports back, or has ended. -/
inductive Phase where
  | starting
  | forwarding
  | waiting
  | failed
  | finished
  deriving DecidableEq

structure Task where
  server : Server
  tunnel : Tunnel
  phase : Phase

/-- The task holds its local ports or may still bind them. -/
def Task.live (t : Task) : Bool :=
  t.phase = .starting ∨ t.phase = .forwarding ∨ t.phase = .waiting

inductive Command where
  | saveServer (server : Server) (password : Option String)
  | deleteServer (id : Uuid)
  | saveTunnel (tunnel : Tunnel)
  | deleteTunnel (id : Uuid)
  | setTunnelConnected (id : Uuid) (connected : Bool)

/-- What a command goes on with when its configuration is stored. -/
inductive Next where
  | server (id : Uuid) (reconnect : Bool)
  | tunnel (id : Uuid) (active : Bool)
  | withoutServer (tunnels : List Uuid)
  | withoutTunnel (id : Uuid)

/-- What a command waits for: the store; the files, terminals and integration of a server; the
    end of a task, which is then started again, or left out, or only stopped; the integration
    that is started again; the clean-up of a server's history. -/
inductive Work where
  | saving (config : Config) (next : Next)
  | closing (server : Uuid)
  | restarting (id : Uuid) (rest : List Uuid) (server : Bool)
  | removing (id : Uuid) (rest : List Uuid) (server : Bool)
  | stopping (id : Uuid)
  | integrating
  | cleaning

structure Manager where
  config : Config
  loadError : Option String
  tasks : Uuid → Option Task
  status : Uuid → Option Status
  work : Option Work
  /-- The answer of the last command that ended. -/
  answer : Option (Except String Unit)

inductive TaskEvent where
  | connected
  | retried
  | failed
  | resumed
  | ended

inductive Event where
  | task (id : Uuid) (e : TaskEvent)
  | begin (c : Command)
  | stored (r : Except String Unit)
  | closed
  | stopped
  | done (r : Except String Unit)

namespace Manager

def update {α : Type} (f : Uuid → Option α) (id : Uuid) (a : Option α) : Uuid → Option α :=
  fun i => if i = id then a else f i

def finish (m : Manager) (r : Except String Unit) : Manager :=
  { m with work := none, answer := some r }

def wait (m : Manager) (w : Work) : Manager := { m with work := some w }

/-! ## Tasks -/

def taskEvent (m : Manager) (id : Uuid) (t : Task) (e : TaskEvent) : Option Manager :=
  match e, t.phase with
  | .connected, .starting => some { m with
      tasks := update m.tasks id (some { t with phase := .forwarding })
      status := update m.status id (some .connected) }
  | .retried, .starting | .retried, .forwarding =>
    if t.tunnel.autoReconnect then some { m with
      tasks := update m.tasks id (some { t with phase := .waiting })
      status := update m.status id (some .reconnecting) }
    else none
  | .failed, .starting | .failed, .forwarding => some { m with
      tasks := update m.tasks id (some { t with phase := .failed })
      status := update m.status id (some .error) }
  | .resumed, .waiting => some { m with
      tasks := update m.tasks id (some { t with phase := .starting }) }
  | .ended, .failed => some { m with
      tasks := update m.tasks id (some { t with phase := .finished }) }
  | _, _ => none

/-- There is a task that has not ended. -/
def running (m : Manager) (id : Uuid) : Bool := (m.tasks id).any fun t => t.phase ≠ .finished

section
variable (A : Addresses)

/-- Local ports of another tunnel that is active. -/
def checkPorts (m : Manager) (id : Uuid) (requested : List (UInt16 × UInt16)) :
    List Tunnel → Except String Unit
  | [] => .ok ()
  | t :: tunnels =>
    if t.id ≠ id ∧ m.running t.id then do
      let ps ← t.pairs A
      if ps.any fun p => requested.any fun q => p.1 = q.1 then
        .error s!"Local ports overlap with active tunnel '{t.name}'."
      else checkPorts m id requested tunnels
    else checkPorts m id requested tunnels

def server (m : Manager) (id : Uuid) : Except String Server :=
  match m.config.servers.find? fun s => s.id = id with
  | some s => .ok s
  | none => .error "Server no longer exists."

def connect (m : Manager) (id : Uuid) : Except String Manager :=
  if m.running id then .ok m
  else
    match m.config.tunnels.find? fun t => t.id = id with
    | none => .error "Tunnel no longer exists."
    | some tunnel => do
      let requested ← tunnel.pairs A
      let server ← m.server tunnel.serverId
      m.checkPorts A id requested m.config.tunnels
      .ok { m with
        status := update m.status id (some .connecting)
        tasks := update m.tasks id (some ⟨server, tunnel, .starting⟩) }

/-- The task has ended that was to be stopped. -/
def disconnected (m : Manager) (id : Uuid) (status : Option Status) : Manager :=
  { m with tasks := update m.tasks id none, status := update m.status id status }

def activeTunnels (m : Manager) (server : Uuid) : List Uuid :=
  (m.config.tunnels.filter fun t => t.serverId = server ∧ m.running t.id).map Tunnel.id

/-! ## Commands -/

/-- The configuration is stored unless it could not be loaded or is not valid. -/
def save (m : Manager) (config : Config) (next : Next) : Manager :=
  match m.loadError with
  | some e => m.finish (.error e)
  | none =>
    match config.validate A with
    | .error e => m.finish (.error e)
    | .ok () => m.wait (.saving config next)

/-- The tunnels that are started again, and then, if a server was saved, its integration. -/
def restart (m : Manager) (ids : List Uuid) (server : Bool) : Manager :=
  match ids with
  | id :: rest => m.wait (.restarting id rest server)
  | [] => if server then m.wait .integrating else m.finish (.ok ())

def remove (m : Manager) (ids : List Uuid) (server : Bool) : Manager :=
  match ids with
  | id :: rest => m.wait (.removing id rest server)
  | [] => if server then m.wait .cleaning else m.finish (.ok ())

/-- The tunnel that has the id is replaced, or the new one added. -/
def upsertTunnel (tunnel : Tunnel) : List Tunnel → List Tunnel
  | [] => [tunnel]
  | t :: tunnels => if t.id = tunnel.id then tunnel :: tunnels else t :: upsertTunnel tunnel tunnels

def nonempty (password : Option String) : Bool := password.any fun p => p ≠ ""

def saveServer (m : Manager) (server : Server) (password : Option String) : Manager :=
  match server.validate A with
  | .error e => m.finish (.error e)
  | .ok () =>
    let reconnect := nonempty password ||
      (m.config.servers.find? fun s => s.id = server.id).any fun s => !s.sameConnection server
    m.save A (m.config.upsertServer server) (.server server.id reconnect)

def deleteServer (m : Manager) (id : Uuid) : Manager :=
  match m.server id with
  | .error e => m.finish (.error e)
  | .ok _ =>
    m.save A
      ⟨m.config.servers.filter fun s => s.id ≠ id, m.config.tunnels.filter fun t => t.serverId ≠ id⟩
      (.withoutServer ((m.config.tunnels.filter fun t => t.serverId = id).map Tunnel.id))

def statusActive (s : Status) : Bool := s = .connecting ∨ s = .connected ∨ s = .reconnecting

def saveTunnel (m : Manager) (tunnel : Tunnel) : Manager :=
  match (do
    let _ ← tunnel.pairs A
    let _ ← m.server tunnel.serverId
    tunnel.validateUnique A m.config.tunnels) with
  | .error e => m.finish (.error e)
  | .ok () =>
    m.save A { m.config with tunnels := upsertTunnel tunnel m.config.tunnels }
      (.tunnel tunnel.id ((m.status tunnel.id).any statusActive))

def begin (m : Manager) : Command → Manager
  | .saveServer server password => m.saveServer A server password
  | .deleteServer id => m.deleteServer A id
  | .saveTunnel tunnel => m.saveTunnel A tunnel
  | .deleteTunnel id =>
    m.save A { m.config with tunnels := m.config.tunnels.filter fun t => t.id ≠ id }
      (.withoutTunnel id)
  | .setTunnelConnected id connected =>
    if connected then
      match m.connect A id with
      | .error e => m.finish (.error e)
      | .ok m => m.finish (.ok ())
    else m.wait (.stopping id)

/-- The new configuration is stored. -/
def proceed (m : Manager) : Next → Manager
  | .server id reconnect => if reconnect then m.wait (.closing id) else m.finish (.ok ())
  | .tunnel id active => if active then m.restart [id] false else m.finish (.ok ())
  | .withoutServer ids => m.remove ids true
  | .withoutTunnel id => m.remove [id] false

def step (m : Manager) (e : Event) : Option Manager :=
  match e, m.work with
  | .task id e, _ => (m.tasks id).bind fun t => m.taskEvent id t e
  | .begin c, none => some (m.begin A c)
  | .stored r, some (.saving config next) =>
    match r with
    | .error e => some (m.finish (.error e))
    | .ok () => some ({ m with config := config }.proceed next)
  | .closed, some (.closing id) => some (m.restart (m.activeTunnels id) true)
  | .stopped, some (.restarting id rest server) =>
    match (m.disconnected id (some .disconnected)).connect A id with
    | .error e => some ((m.disconnected id (some .disconnected)).finish (.error e))
    | .ok m => some (m.restart rest server)
  | .stopped, some (.removing id rest server) => some ((m.disconnected id none).remove rest server)
  | .stopped, some (.stopping id) =>
    some ((m.disconnected id (some .disconnected)).finish (.ok ()))
  | .done r, some .integrating => some (m.finish r)
  | .done r, some .cleaning => some (m.finish r)
  | _, _ => none

end

/-- No command has been given yet. -/
def initial (config : Config) (loadError : Option String) : Manager :=
  ⟨config, loadError, fun _ => none, fun _ => none, none, none⟩

/-- The manager of what is stored, or of nothing where that cannot be read or is not valid. -/
def new (A : Addresses) (stored : Except String Config) : Manager :=
  match (do
    let config ← stored
    config.validate A
    .ok config) with
  | .ok config => initial config none
  | .error e => initial ⟨[], []⟩ (some e)

end Manager

end Porthop.Profile
