import Porthop.Sampling.Sampler

/- The connections that are known, and what the steps of the manager do to them.

   A connection that is gone stays gone: its server has another revision, or none has its
   number until one is saved with another revision. -/
namespace Porthop.Sampling

open Porthop.Profile
open Porthop.Profile.Manager (fields sameConnection_iff)

/-- What the servers of a configuration are connected to with. -/
def known (servers : List Server) : List (Uuid × String × UInt16 × String × Option String ×
    Option String × Option String × AuthMethod) :=
  servers.map fun server => (server.id, fields server)

/-- No connection of the server has that revision, nor will one have it. -/
def Gone {ρ V : Type} (m : Connections ρ V) (id : Uuid) (revision : Nat) : Prop :=
  revision < m.connectionRevision id ∨
    revision = m.connectionRevision id ∧ ∀ f, (id, f) ∉ known m.config.servers

/-- Every revision that is used was the next one, and no two servers have one number. -/
structure Counted {ρ V : Type} (m : Connections ρ V) : Prop where
  bounded : ∀ id, m.connectionRevision id ≤ m.nextConnectionRevision
  ids : (m.config.servers.map Server.id).Nodup

/-- The revisions only grow, and a connection that is new has a new one. -/
structure Follows {ρ V : Type} (m m' : Connections ρ V) : Prop where
  revisions : ∀ id, m.connectionRevision id ≤ m'.connectionRevision id
  counted : Counted m'
  servers : ∀ id f, (id, f) ∈ known m'.config.servers →
    (id, f) ∈ known m.config.servers ∨ m.connectionRevision id < m'.connectionRevision id

variable {ρ V : Type} {A : Addresses} {m m' : Connections ρ V}

theorem known_of_mem {servers : List Server} {server old : Server} (h : old ∈ servers)
    (hid : old.id = server.id) (hfields : fields old = fields server) :
    (server.id, fields server) ∈ known servers := by
  rw [← hid, ← hfields]
  exact List.mem_map_of_mem h

theorem matches_iff {server : Server} {revision : Nat} :
    m.matchesConnection server revision = true ↔ m.connectionRevision server.id = revision ∧
      (server.id, fields server) ∈ known m.config.servers := by
  simp only [Connections.matchesConnection, known, Bool.and_eq_true, List.any_eq_true,
    List.mem_map, decide_eq_true_eq, sameConnection_iff, Prod.mk.injEq]

theorem known_ids (servers : List Server) :
    (known servers).map Prod.fst = servers.map Server.id := by
  rw [known, List.map_map]
  rfl

/-- A server is known with one connection. -/
theorem Counted.known_unique (hm : Counted m) {id : Uuid} {f g}
    (hf : (id, f) ∈ known m.config.servers) (hg : (id, g) ∈ known m.config.servers) : f = g := by
  have hnodup : ((known m.config.servers).map Prod.fst).Nodup := by
    rw [known_ids]
    exact hm.ids
  exact (Prod.mk.inj (List.inj_on_of_nodup_map hnodup hf hg rfl)).2

/-! ## What is gone -/

theorem Gone.not_matches {server : Server} {revision : Nat} (h : Gone m server.id revision) :
    m.matchesConnection server revision = false := by
  apply eq_false_of_ne_true
  intro hmatch
  obtain ⟨hrevision, hknown⟩ := matches_iff.mp hmatch
  rcases h with h | ⟨-, h⟩
  · omega
  · exact h (fields server) hknown

theorem Gone.follows {id : Uuid} {revision : Nat} (h : Gone m id revision) (hm : Follows m m') :
    Gone m' id revision := by
  have hle := hm.revisions id
  rcases h with h | ⟨heq, hnone⟩
  · exact .inl (lt_of_lt_of_le h hle)
  · rcases Nat.lt_or_eq_of_le hle with hlt | hsame
    · exact .inl (by omega)
    · refine .inr ⟨heq.trans hsame, fun f hf => ?_⟩
      rcases hm.servers id f hf with hold | hlt
      · exact hnone f hold
      · omega

/-- Where a connection is gone, only one of a newer revision is known. -/
theorem Gone.lt_of_matches {server : Server} {revision newer : Nat} (h : Gone m server.id revision)
    (hmatch : m.matchesConnection server newer = true) : revision < newer := by
  obtain ⟨hrevision, hknown⟩ := matches_iff.mp hmatch
  rcases h with h | ⟨-, h⟩
  · omega
  · exact absurd hknown (h (fields server))

/-- What does not match, at a revision there has been, never matches again. -/
theorem Follows.not_matches {server : Server} {revision : Nat} (hm : Follows m m')
    (hpast : revision ≤ m.connectionRevision server.id)
    (h : m.matchesConnection server revision = false) :
    m'.matchesConnection server revision = false := by
  apply eq_false_of_ne_true
  intro hmatch
  obtain ⟨hrevision, hknown⟩ := matches_iff.mp hmatch
  have hle := hm.revisions server.id
  have hold : (server.id, fields server) ∈ known m.config.servers := by
    apply (hm.servers _ _ hknown).resolve_right
    omega
  have hmatch' : m.matchesConnection server revision = true :=
    matches_iff.mpr ⟨by omega, hold⟩
  rw [h] at hmatch'
  exact Bool.false_ne_true hmatch'

/-! ## The steps of the manager -/

/-- The same servers at the same revisions. -/
structure Same (m m' : Connections ρ V) : Prop where
  revisions : m'.connectionRevisions = m.connectionRevisions
  next : m'.nextConnectionRevision = m.nextConnectionRevision
  servers : known m'.config.servers = known m.config.servers

theorem Same.refl (m : Connections ρ V) : Same m m := ⟨rfl, rfl, rfl⟩

theorem Same.revision (h : Same m m') (id : Uuid) :
    m'.connectionRevision id = m.connectionRevision id := by
  rw [Connections.connectionRevision, Connections.connectionRevision, h.revisions]

theorem Same.matches (h : Same m m') (server : Server) (revision : Nat) :
    m'.matchesConnection server revision = m.matchesConnection server revision := by
  apply Bool.eq_iff_iff.mpr
  rw [matches_iff, matches_iff, h.revision, h.servers]

theorem Same.follows (h : Same m m') (hm : Counted m) : Follows m m' where
  revisions id := le_of_eq (h.revision id).symm
  counted := by
    refine ⟨fun id => ?_, ?_⟩
    · rw [h.revision, h.next]
      exact hm.bounded id
    · rw [← known_ids, h.servers, known_ids]
      exact hm.ids
  servers id f hf := by
    rw [h.servers] at hf
    exact .inl hf

theorem same_observe (m : Connections ρ V) (revision : Nat) (o : Observation) :
    Same m (m.observeConnection revision o) := by
  rw [Connections.observeConnection]
  split
  · exact ⟨rfl, rfl, rfl⟩
  · exact .refl m

theorem same_event (m : Connections ρ V) (o : Observation) : Same m (m.connectionEvent o) := by
  rw [Connections.connectionEvent]
  split
  · exact .refl m
  · split
    · exact ⟨rfl, rfl, rfl⟩
    · exact .refl m

theorem known_remember (id : Uuid) (browser enabled : Bool) (servers : List Server) :
    known (Connections.remember id browser enabled servers) = known servers := by
  induction servers with
  | nil => rfl
  | cons server servers ih =>
    rw [Connections.remember]
    split
    · cases browser
      · rfl
      · rfl
    · exact congrArg (List.cons _) ih

theorem same_remember {id : Uuid} {browser enabled : Bool} {stored : Except String Unit}
    (h : m.rememberIntegration A id browser enabled stored = .ok m') : Same m m' := by
  rw [Connections.rememberIntegration] at h
  split at h
  · cases h
  · split at h
    · cases h
      exact .refl m
    · obtain ⟨rfl, -⟩ := Connections.save_ok h
      exact ⟨rfl, rfl, known_remember id browser enabled m.config.servers⟩

/-- A step that either fails or stores what has the same connections. -/
theorem same_orElse {r : Except String (Connections ρ V)} (h : ∀ m', r = .ok m' → Same m m') :
    Same m (m.orElse r) := by
  cases r with
  | error e => exact .refl m
  | ok m' => exact h m' rfl

section
variable [DecidableEq V] {toValue : Content ρ → V}

/-- Only the commands that save or delete a server change a connection. -/
theorem same_step {e : Happening ρ} (hedits : edits e = false)
    (hstep : m.step A toValue e = some m') : Same m m' := by
  cases e with
  | saveServer | deleteServer => cases hedits
  | tick | runtime | snapshot =>
    cases hstep
    exact ⟨rfl, rfl, rfl⟩
  | saveTunnels tunnels stored =>
    cases hstep
    apply same_orElse
    intro m' hsave
    obtain ⟨rfl, -⟩ := Connections.save_ok hsave
    exact ⟨rfl, rfl, rfl⟩
  | rememberIntegration id browser enabled stored =>
    cases hstep
    exact same_orElse fun m' hsave => same_remember hsave
  | report server started wall result =>
    simp only [Connections.step] at hstep
    split at hstep
    · cases hstep
      exact ⟨rfl, rfl, rfl⟩
    · cases hstep
  | capture | start | lag =>
    obtain ⟨x, -, rfl⟩ := Option.map_eq_some_iff.mp hstep
    exact ⟨rfl, rfl, rfl⟩
  | observe n wall result =>
    obtain ⟨a, -, rfl⟩ := Option.map_eq_some_iff.mp hstep
    obtain ⟨h₁, h₂, h₃⟩ := same_observe { m with attempts := m.attempts.eraseIdx n } a.revision
      ⟨a.server, a.started, m.now, wall, result⟩
    exact ⟨h₁, h₂, h₃⟩
  | receive =>
    obtain ⟨o, -, rfl⟩ := Option.map_eq_some_iff.mp hstep
    obtain ⟨h₁, h₂, h₃⟩ := same_event { m with channel := m.channel.tail } o
    exact ⟨h₁, h₂, h₃⟩

end

/-! ## Edits -/

theorem follows_advance {c : Config} {id : Uuid} (hm : Counted m)
    (hids : (c.servers.map Server.id).Nodup)
    (hservers : ∀ i f, i ≠ id → (i, f) ∈ known c.servers → (i, f) ∈ known m.config.servers) :
    Follows m ({ m with config := c }.advanceConnectionRevision id) := by
  let m₁ := { m with config := c }.advanceConnectionRevision id
  have hsame : m₁.connectionRevision id = m.nextConnectionRevision + 1 := by
    show (Manager.update m.connectionRevisions id (some (m.nextConnectionRevision + 1)) id).getD 0
      = _
    rw [Manager.update_same]
    rfl
  have hother : ∀ i, i ≠ id → m₁.connectionRevision i = m.connectionRevision i := by
    intro i hi
    show (Manager.update m.connectionRevisions id (some (m.nextConnectionRevision + 1)) i).getD 0
      = _
    rw [Manager.update_other hi]
    rfl
  have hnext : m₁.nextConnectionRevision = m.nextConnectionRevision + 1 := rfl
  have hid := hm.bounded id
  refine ⟨fun i => ?_, ⟨fun i => ?_, hids⟩, fun i f hf => ?_⟩
  · by_cases hi : i = id
    · subst hi
      show _ ≤ m₁.connectionRevision i
      omega
    · exact le_of_eq (hother i hi).symm
  · by_cases hi : i = id
    · subst hi
      exact le_of_eq (hsame.trans hnext.symm)
    · show m₁.connectionRevision i ≤ m₁.nextConnectionRevision
      have hle := hm.bounded i
      rw [hother i hi]
      omega
  · by_cases hi : i = id
    · right
      subst hi
      show _ < m₁.connectionRevision i
      omega
    · exact .inl (hservers i f hi hf)

theorem follows_save {server : Server} {password : Option String} {stored : Except String Unit}
    (hm : Counted m) (h : m.saveServer A server password stored = .ok m') : Follows m m' ∧
      (m.reconnects server password = true →
        m.connectionRevision server.id < m'.connectionRevision server.id) := by
  obtain ⟨hvalid, rfl⟩ := Connections.saveServer_ok h
  have hcases : ∀ i f, (i, f) ∈ known (m.config.upsertServer server).servers →
      i = server.id ∧ f = fields server ∨ (i, f) ∈ known m.config.servers := by
    intro i f hf
    obtain ⟨s, hs, heq⟩ := List.mem_map.mp hf
    obtain ⟨rfl, rfl⟩ := Prod.mk.inj heq
    rcases Connections.mem_upsert_inv hs with ⟨hfields, hid⟩ | hs
    · exact .inl ⟨hid, hfields⟩
    · exact .inr (List.mem_map_of_mem hs)
  by_cases hre : m.reconnects server password = true
  · rw [if_pos hre]
    have hfollows := follows_advance hm hvalid.serverIds fun i f hi hf =>
      (hcases i f hf).resolve_left fun h => hi h.1
    refine ⟨hfollows, fun _ => ?_⟩
    show _ < (Manager.update m.connectionRevisions server.id _ server.id).getD 0
    rw [Manager.update_same]
    exact Nat.lt_succ_of_le (hm.bounded server.id)
  · rw [if_neg hre]
    refine ⟨⟨fun _ => le_refl _, ⟨hm.bounded, hvalid.serverIds⟩, fun i f hf => .inl ?_⟩,
      fun h => absurd h hre⟩
    rcases hcases i f hf with ⟨rfl, rfl⟩ | hold
    · -- the same connection is saved again
      obtain ⟨-, hprofile⟩ := not_or.mp (mt Connections.reconnects_of_profile.mpr hre)
      obtain ⟨old, hfind, hfields⟩ := Option.map_eq_some_iff.mp (not_not.mp hprofile)
      have hid : old.id = server.id := by simpa using List.find?_some hfind
      exact known_of_mem (List.mem_of_find?_eq_some hfind) hid hfields
    · exact hold

theorem follows_delete {id : Uuid} {stored : Except String Unit}
    (hm : Counted m) (h : m.deleteServer A id stored = .ok m') : Follows m m' ∧
      Gone m' id (m.connectionRevision id) := by
  rw [Connections.deleteServer] at h
  split at h
  · cases h
  · obtain ⟨rfl, hvalid⟩ := Connections.save_ok h
    refine ⟨⟨fun _ => le_refl _, ⟨hm.bounded, hvalid.serverIds⟩, fun i f hf => .inl ?_⟩,
      .inr ⟨rfl, fun f hf => ?_⟩⟩
    · obtain ⟨s, hs, heq⟩ := List.mem_map.mp hf
      exact List.mem_map.mpr ⟨s, List.mem_of_mem_filter hs, heq⟩
    · obtain ⟨s, hs, heq⟩ := List.mem_map.mp hf
      have hne : s.id ≠ id := by simpa using (List.mem_filter.mp hs).2
      exact hne (Prod.mk.inj heq).1

end Porthop.Sampling
