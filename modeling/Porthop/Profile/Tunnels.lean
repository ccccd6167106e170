import Porthop.Profile.Model

/- Tunnels, and what makes them and a configuration of them valid (`model.rs`). -/
namespace Porthop.Profile

def trimEndDots (s : String) : String :=
  String.ofList (s.toList.reverse.dropWhile (· = '.')).reverse

/-- The name a host is compared by. -/
def forwardingHost (A : Addresses) (host : String) : String :=
  let host := (trimEndDots host).toLower
  let host := (A.normal host).getD host
  if host = "localhost" ∨ host = "0.0.0.0" then "127.0.0.1"
  else if host = "::" then "::1"
  else host

/-- The ports of a range with both its ends. -/
def portRange (low high : UInt16) : List UInt16 :=
  (List.range' low.toNat (high.toNat + 1 - low.toNat)).map UInt16.ofNat

namespace Tunnel

def localEnd (t : Tunnel) : UInt16 := t.localPortEnd.getD t.localPort

def remoteEnd (t : Tunnel) : UInt16 := t.remotePortEnd.getD t.remotePort

def localPorts (t : Tunnel) : List UInt16 := portRange t.localPort t.localEnd

def remotePorts (t : Tunnel) : List UInt16 := portRange t.remotePort t.remoteEnd

def pairs (A : Addresses) (t : Tunnel) : Except String (List (UInt16 × UInt16)) :=
  if t.localPort = 0 ∨ t.remotePort = 0 ∨ t.localEnd < t.localPort ∨ t.remoteEnd < t.remotePort then
    .error "Ports must be 1–65535 and ranges must run from low to high."
  else if t.localEnd - t.localPort ≠ t.remoteEnd - t.remotePort then
    .error "Local and remote ranges must contain the same number of ports."
  else if t.localEnd - t.localPort ≥ 256 then .error "Use at most 256 ports per tunnel."
  else if !hostValid A t.remoteHost then
    .error "Enter a valid remote hostname or unbracketed IP address."
  else .ok (t.localPorts.zip t.remotePorts)

def localOverlap (t other : Tunnel) : Bool :=
  t.localPort ≤ other.localEnd ∧ other.localPort ≤ t.localEnd

def remoteOverlap (A : Addresses) (t other : Tunnel) : Bool :=
  t.serverId = other.serverId ∧ forwardingHost A t.remoteHost = forwardingHost A other.remoteHost ∧
    (t.remotePort ≤ other.remoteEnd ∧ other.remotePort ≤ t.remoteEnd)

/-- A tunnel against the saved ones, without an older version of itself. -/
def uniqueAmong (A : Addresses) (t : Tunnel) : List Tunnel → Except String Unit
  | [] => .ok ()
  | other :: saved =>
    if other.id = t.id then uniqueAmong A t saved
    else if t.localOverlap other then
      .error s!"Local port range overlaps the saved tunnel '{other.name}'. Edit that tunnel or choose another local port."
    else if t.remoteOverlap A other then
      .error s!"This remote port is already forwarded by '{other.name}'. Edit the existing tunnel instead."
    else uniqueAmong A t saved

def validateUnique (A : Addresses) (t : Tunnel) (saved : List Tunnel) : Except String Unit := do
  let _ ← t.pairs A
  t.uniqueAmong A saved

end Tunnel

namespace Config

/-- The new server with the consents of the old one, which a new destination loses. -/
def withConsents (existing : Option Server) (server : Server) : Server :=
  { server with
    clipboardEnabled := existing.any fun e => e.clipboardEnabled && e.sameDestination server
    browserEnabled := existing.any fun e => e.browserEnabled && e.sameDestination server }

/-- The first one with the id is replaced, or the new one added. -/
def upsert (server : Server) : List Server → List Server
  | [] => [withConsents none server]
  | s :: servers =>
    if s.id = server.id then withConsents (some s) server :: servers
    else s :: upsert server servers

def upsertServer (c : Config) (server : Server) : Config :=
  { c with servers := upsert server c.servers }

/-- The ids of the servers. -/
def validateServers (A : Addresses) : List Uuid → List Server → Except String (List Uuid)
  | ids, [] => .ok ids
  | ids, s :: servers => do
    s.validate A
    if s.id ∈ ids then .error "Duplicate server ID." else validateServers A (s.id :: ids) servers

def validateTunnels (A : Addresses) (ids : List Uuid) : List Uuid → List Tunnel → Except String Unit
  | _, [] => .ok ()
  | seen, t :: tunnels => do
    let _ ← t.pairs A
    if t.serverId ∉ ids then .error s!"Tunnel '{t.name}' references a missing server."
    else if t.id ∈ seen then .error "Duplicate tunnel ID."
    else validateTunnels A ids (t.id :: seen) tunnels

def validate (A : Addresses) (c : Config) : Except String Unit := do
  let ids ← validateServers A [] c.servers
  validateTunnels A ids [] c.tunnels

end Config

/-! ## Ports -/

theorem toNat_portRange (low high : UInt16) : (portRange low high).map UInt16.toNat =
    List.range' low.toNat (high.toNat + 1 - low.toNat) := by
  rw [portRange, List.map_map]
  calc (List.range' low.toNat (high.toNat + 1 - low.toNat)).map (UInt16.toNat ∘ UInt16.ofNat)
      = (List.range' low.toNat (high.toNat + 1 - low.toNat)).map id := by
        apply List.map_congr_left
        intro n hn
        have hlt := high.toNat_lt
        obtain ⟨hlow, hhigh⟩ := List.mem_range'_1.mp hn
        have hsize : UInt16.size = 65536 := rfl
        exact UInt16.toNat_ofNat_of_lt' (by omega)
    _ = List.range' low.toNat (high.toNat + 1 - low.toNat) := List.map_id _

theorem mem_portRange {low high p : UInt16} :
    p ∈ portRange low high ↔ low ≤ p ∧ p ≤ high := by
  have hmem : p ∈ portRange low high ↔ p.toNat ∈ (portRange low high).map UInt16.toNat := by
    constructor
    · exact List.mem_map_of_mem
    · intro h
      obtain ⟨q, hq, heq⟩ := List.mem_map.mp h
      rwa [← UInt16.toNat_inj.mp heq]
  rw [hmem, toNat_portRange, List.mem_range'_1, UInt16.le_iff_toNat_le, UInt16.le_iff_toNat_le]
  omega

theorem length_portRange (low high : UInt16) :
    (portRange low high).length = high.toNat + 1 - low.toNat := by
  rw [portRange, List.length_map, List.length_range']

theorem nodup_portRange (low high : UInt16) : (portRange low high).Nodup := by
  apply List.Nodup.of_map UInt16.toNat
  rw [toNat_portRange]
  exact List.nodup_range'

namespace Tunnel

variable {A : Addresses} {t other : Tunnel}

/-- What the checks of a tunnel leave. -/
structure Sized (A : Addresses) (t : Tunnel) : Prop where
  localRange : 0 < t.localPort.toNat ∧ t.localPort.toNat ≤ t.localEnd.toNat
  remoteRange : 0 < t.remotePort.toNat ∧ t.remotePort.toNat ≤ t.remoteEnd.toNat
  same : t.localEnd.toNat - t.localPort.toNat = t.remoteEnd.toNat - t.remotePort.toNat
  few : t.localEnd.toNat - t.localPort.toNat < 256
  host : hostValid A t.remoteHost = true

theorem pairs_ok {ps : List (UInt16 × UInt16)} (h : t.pairs A = .ok ps) :
    t.Sized A ∧ ps = t.localPorts.zip t.remotePorts := by
  rw [pairs] at h
  split at h
  · cases h
  · next hrange =>
    split at h
    · cases h
    · next hsame =>
      split at h
      · cases h
      · next hfew =>
        split at h
        · cases h
        · next hhost =>
          simp only [not_or, UInt16.lt_iff_toNat_lt, Nat.not_lt] at hrange
          obtain ⟨hlocal, hremote, hle, hre⟩ := hrange
          have hpos : ∀ p : UInt16, p ≠ 0 → 0 < p.toNat := by
            intro p hp
            apply Nat.pos_of_ne_zero
            intro hzero
            exact hp (UInt16.toNat_inj.mp hzero)
          have hl := UInt16.toNat_sub_of_le t.localEnd t.localPort (UInt16.le_iff_toNat_le.mpr hle)
          have hr := UInt16.toNat_sub_of_le t.remoteEnd t.remotePort (UInt16.le_iff_toNat_le.mpr hre)
          have heq := congrArg UInt16.toNat (Decidable.not_not.mp hsame)
          have hlt := UInt16.lt_iff_toNat_lt.mp (UInt16.not_le.mp hfew)
          rw [hl] at hlt
          rw [hl, hr] at heq
          refine ⟨⟨⟨hpos _ hlocal, hle⟩, ⟨hpos _ hremote, hre⟩, heq, hlt, ?_⟩, (Except.ok.inj h).symm⟩
          simpa using hhost

/-- A tunnel that passed has from one to 256 pairs, each port of a side once and without a gap. -/
theorem pairs_ports {ps : List (UInt16 × UInt16)} (h : t.pairs A = .ok ps) :
    ps.map Prod.fst = t.localPorts ∧ ps.map Prod.snd = t.remotePorts ∧
      ps.length = t.localEnd.toNat + 1 - t.localPort.toNat ∧ 1 ≤ ps.length ∧ ps.length ≤ 256 := by
  obtain ⟨hsized, rfl⟩ := pairs_ok h
  have hl : t.localPorts.length = t.localEnd.toNat + 1 - t.localPort.toNat := length_portRange _ _
  have hr : t.remotePorts.length = t.remoteEnd.toNat + 1 - t.remotePort.toNat := length_portRange _ _
  have hsame := hsized.same
  have hlocal := hsized.localRange.2
  have hremote := hsized.remoteRange.2
  have hfew := hsized.few
  have hlen : t.localPorts.length = t.remotePorts.length := by omega
  refine ⟨List.map_fst_zip (by omega), List.map_snd_zip (by omega), ?_, ?_, ?_⟩
  · rw [List.length_zip]
    omega
  · rw [List.length_zip]
    omega
  · rw [List.length_zip]
    omega

/-- Ranges that do not overlap share no port. -/
theorem localPorts_disjoint (h : t.localOverlap other = false) :
    List.Disjoint t.localPorts other.localPorts := by
  intro p hp hother
  obtain ⟨hlow, hhigh⟩ := mem_portRange.mp hp
  obtain ⟨hlow', hhigh'⟩ := mem_portRange.mp hother
  exact (of_decide_eq_false h) ⟨UInt16.le_trans hlow hhigh', UInt16.le_trans hlow' hhigh⟩

theorem localOverlap_comm : t.localOverlap other = other.localOverlap t := by
  rw [localOverlap, localOverlap]
  exact decide_eq_decide.mpr and_comm

theorem remoteOverlap_comm : t.remoteOverlap A other = other.remoteOverlap A t := by
  rw [remoteOverlap, remoteOverlap]
  apply decide_eq_decide.mpr
  constructor
  · rintro ⟨hserver, hhost, hlow, hhigh⟩
    exact ⟨hserver.symm, hhost.symm, hhigh, hlow⟩
  · rintro ⟨hserver, hhost, hlow, hhigh⟩
    exact ⟨hserver.symm, hhost.symm, hhigh, hlow⟩

theorem remotePorts_disjoint (h : t.remoteOverlap A other = false)
    (hserver : t.serverId = other.serverId)
    (hhost : forwardingHost A t.remoteHost = forwardingHost A other.remoteHost) :
    List.Disjoint t.remotePorts other.remotePorts := by
  intro p hp hother
  obtain ⟨hlow, hhigh⟩ := mem_portRange.mp hp
  obtain ⟨hlow', hhigh'⟩ := mem_portRange.mp hother
  exact (of_decide_eq_false h)
    ⟨hserver, hhost, UInt16.le_trans hlow hhigh', UInt16.le_trans hlow' hhigh⟩

/-- Two tunnels that may both be saved. -/
def Apart (A : Addresses) (t other : Tunnel) : Prop :=
  t.localOverlap other = false ∧ t.remoteOverlap A other = false

theorem Apart.symm (h : t.Apart A other) : other.Apart A t :=
  ⟨localOverlap_comm.trans h.1, remoteOverlap_comm.trans h.2⟩

theorem uniqueAmong_ok {saved : List Tunnel} (h : t.uniqueAmong A saved = .ok ()) :
    ∀ other ∈ saved, other.id ≠ t.id → t.Apart A other := by
  induction saved with
  | nil => exact fun other hmem => absurd hmem List.not_mem_nil
  | cons o saved ih =>
    rw [uniqueAmong] at h
    intro other hmem hne
    split at h
    · next hid =>
      rcases List.mem_cons.mp hmem with rfl | hmem
      · exact absurd hid hne
      · exact ih h other hmem hne
    · split at h
      · cases h
      · next hlocal =>
        split at h
        · cases h
        · next hremote =>
          rcases List.mem_cons.mp hmem with rfl | hmem
          · exact ⟨eq_false_of_ne_true hlocal, eq_false_of_ne_true hremote⟩
          · exact ih h other hmem hne

theorem validateUnique_ok {saved : List Tunnel} (h : t.validateUnique A saved = .ok ()) :
    (∃ ps, t.pairs A = .ok ps) ∧ ∀ other ∈ saved, other.id ≠ t.id → t.Apart A other := by
  rw [validateUnique] at h
  cases hpairs : t.pairs A with
  | error e =>
    rw [hpairs] at h
    cases h
  | ok ps =>
    rw [hpairs] at h
    exact ⟨⟨ps, rfl⟩, uniqueAmong_ok h⟩

end Tunnel

/-! ## Configurations -/

namespace Config

variable {A : Addresses} {c : Config}

/-- A configuration that may be stored. -/
structure Valid (A : Addresses) (c : Config) : Prop where
  servers : ∀ s ∈ c.servers, s.validate A = .ok ()
  serverIds : (c.servers.map Server.id).Nodup
  pairs : ∀ t ∈ c.tunnels, ∃ ps, t.pairs A = .ok ps
  served : ∀ t ∈ c.tunnels, t.serverId ∈ c.servers.map Server.id
  tunnelIds : (c.tunnels.map Tunnel.id).Nodup

/-- No two tunnels use a local port, or a remote one of the same server and host. -/
def Apart (A : Addresses) (c : Config) : Prop :=
  ∀ t ∈ c.tunnels, ∀ other ∈ c.tunnels, other.id ≠ t.id → t.Apart A other

theorem validateServers_ok : ∀ {servers : List Server} {seen ids : List Uuid},
    validateServers A seen servers = .ok ids → (∀ s ∈ servers, s.validate A = .ok ()) ∧
      (servers.map Server.id).Nodup ∧ (∀ id ∈ servers.map Server.id, id ∉ seen) ∧
      ∀ id, id ∈ ids ↔ id ∈ seen ∨ id ∈ servers.map Server.id
  | [], seen, ids, h => by
    rw [validateServers] at h
    obtain rfl := Except.ok.inj h
    simp
  | s :: servers, seen, ids, h => by
    rw [validateServers] at h
    cases hs : s.validate A with
    | error e =>
      rw [hs] at h
      cases h
    | ok u =>
      rw [hs] at h
      change (if s.id ∈ seen then _ else _) = _ at h
      split at h
      · cases h
      · next hnew =>
        obtain ⟨hvalid, hnodup, hfresh, hids⟩ := validateServers_ok h
        refine ⟨?_, ?_, ?_, ?_⟩
        · intro s' hs'
          rcases List.mem_cons.mp hs' with rfl | hs'
          · exact hs
          · exact hvalid s' hs'
        · rw [List.map_cons, List.nodup_cons]
          exact ⟨fun hmem => hfresh s.id hmem List.mem_cons_self, hnodup⟩
        · intro id hid
          rcases List.mem_cons.mp hid with rfl | hid
          · exact hnew
          · exact fun hseen => hfresh id hid (List.mem_cons_of_mem s.id hseen)
        · intro id
          rw [hids, List.map_cons, List.mem_cons, List.mem_cons]
          exact ⟨fun h => by rcases h with (h | h) | h <;> simp [h],
            fun h => by rcases h with h | h | h <;> simp [h]⟩

theorem validateTunnels_ok {ids : List Uuid} : ∀ {tunnels : List Tunnel} {seen : List Uuid},
    validateTunnels A ids seen tunnels = .ok () → (∀ t ∈ tunnels, ∃ ps, t.pairs A = .ok ps) ∧
      (∀ t ∈ tunnels, t.serverId ∈ ids) ∧ (tunnels.map Tunnel.id).Nodup ∧
      ∀ id ∈ tunnels.map Tunnel.id, id ∉ seen
  | [], seen, h => by simp
  | t :: tunnels, seen, h => by
    rw [validateTunnels] at h
    cases ht : t.pairs A with
    | error e =>
      rw [ht] at h
      cases h
    | ok ps =>
      rw [ht] at h
      change (if t.serverId ∉ ids then _ else if t.id ∈ seen then _ else _) = _ at h
      split at h
      · cases h
      · next hserver =>
        split at h
        · cases h
        · next hnew =>
          obtain ⟨hpairs, hserved, hnodup, hfresh⟩ := validateTunnels_ok h
          refine ⟨?_, ?_, ?_, ?_⟩
          · intro t' ht'
            rcases List.mem_cons.mp ht' with rfl | ht'
            · exact ⟨ps, ht⟩
            · exact hpairs t' ht'
          · intro t' ht'
            rcases List.mem_cons.mp ht' with rfl | ht'
            · exact Decidable.not_not.mp hserver
            · exact hserved t' ht'
          · rw [List.map_cons, List.nodup_cons]
            exact ⟨fun hmem => hfresh t.id hmem List.mem_cons_self, hnodup⟩
          · intro id hid
            rcases List.mem_cons.mp hid with rfl | hid
            · exact hnew
            · exact fun hseen => hfresh id hid (List.mem_cons_of_mem t.id hseen)

theorem validate_ok (h : c.validate A = .ok ()) : c.Valid A := by
  rw [validate] at h
  cases hservers : validateServers A [] c.servers with
  | error e =>
    rw [hservers] at h
    cases h
  | ok ids =>
    rw [hservers] at h
    obtain ⟨hvalid, hnodup, -, hids⟩ := validateServers_ok hservers
    obtain ⟨hpairs, hserved, htunnels, -⟩ := validateTunnels_ok h
    refine ⟨hvalid, hnodup, hpairs, fun t ht => ?_, htunnels⟩
    exact ((hids _).mp (hserved t ht)).resolve_left List.not_mem_nil

end Config

end Porthop.Profile
