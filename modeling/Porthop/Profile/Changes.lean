import Porthop.Profile.Evidence

/- What the commands change of the connections, and what every run keeps. -/
namespace Porthop.Profile

open Porthop.Run
open Manager (nonempty fields sameConnection_iff)

namespace Connections

variable {ρ V : Type} {A : Addresses} {m m' : Connections ρ V} {h h' : History ρ}

theorem save_ok {c : Config} {stored : Except String Unit} (h : m.save A c stored = .ok m') :
    m' = { m with config := c } ∧ c.Valid A := by
  rw [save] at h
  split at h
  · cases h
  · cases hvalid : c.validate A with
    | error e =>
      rw [hvalid] at h
      cases h
    | ok u =>
      rw [hvalid] at h
      cases stored with
      | error e => cases h
      | ok u => exact ⟨(Except.ok.inj h).symm, Config.validate_ok hvalid⟩

theorem changes_false {e : Happening ρ} {id : Uuid}
    (hprofile : profile m'.config id = profile m.config id)
    (hstores : m.storesPassword A e id = false) : m.changes A e m' id = false := by
  rw [changes, hprofile, hstores, bne_self_eq_false]
  rfl

/-- The servers of the new configuration are the saved one and the others. -/
theorem mem_upsert_inv {server s : Server} {servers : List Server}
    (hs : s ∈ Config.upsert server servers) : fields s = fields server ∧ s.id = server.id ∨
      s ∈ servers := by
  induction servers with
  | nil =>
    rw [List.mem_singleton.mp hs]
    exact .inl ⟨rfl, rfl⟩
  | cons x servers ih =>
    rw [Config.upsert] at hs
    split at hs
    · rcases List.mem_cons.mp hs with rfl | hs
      · exact .inl ⟨rfl, rfl⟩
      · exact .inr (List.mem_cons_of_mem x hs)
    · rcases List.mem_cons.mp hs with rfl | hs
      · exact .inr List.mem_cons_self
      · rcases ih hs with h | h
        · exact .inl h
        · exact .inr (List.mem_cons_of_mem x h)

theorem find_upsert_other {server : Server} {id : Uuid} (hid : server.id ≠ id)
    (servers : List Server) : (Config.upsert server servers).find? (fun s => s.id = id) =
      servers.find? fun s => s.id = id := by
  have hnot : ∀ old, decide ((Config.withConsents old server).id = id) = false :=
    fun old => decide_eq_false hid
  induction servers with
  | nil =>
    rw [Config.upsert, List.find?_cons, hnot]
  | cons x servers ih =>
    rw [Config.upsert]
    split
    · next hx =>
      have hxid : decide (x.id = id) = false := decide_eq_false (by rw [hx]; exact hid)
      rw [List.find?_cons, hnot, List.find?_cons, hxid]
    · rw [List.find?_cons, List.find?_cons, ih]

theorem profile_upsert_other {c : Config} {server : Server} {id : Uuid} (hid : server.id ≠ id) :
    profile (c.upsertServer server) id = profile c id := by
  rw [profile, profile]
  exact congrArg (Option.map fields) (find_upsert_other hid c.servers)

/-- Whether a saved server is connected to anew. -/
def reconnects (m : Connections ρ V) (server : Server) (password : Option String) : Bool :=
  (nonempty password ||
    (m.config.servers.find? fun s => s.id = server.id).any fun s => !s.sameConnection server) ||
    !m.config.servers.any fun s => s.id = server.id

theorem saveServer_ok {server : Server} {password : Option String} {stored : Except String Unit}
    (h : m.saveServer A server password stored = .ok m') :
    (m.config.upsertServer server).Valid A ∧ m' =
      if m.reconnects server password then
        { m with config := m.config.upsertServer server }.advanceConnectionRevision server.id
      else { m with config := m.config.upsertServer server } := by
  rw [saveServer] at h
  cases hvalid : server.validate A with
  | error e =>
    rw [hvalid] at h
    cases h
  | ok u =>
    rw [hvalid] at h
    cases hsave : m.save A (m.config.upsertServer server) stored with
    | error e =>
      simp only [bind, Except.bind, hsave] at h
      cases h
    | ok m₁ =>
      simp only [bind, Except.bind, hsave] at h
      obtain ⟨rfl, hc⟩ := save_ok hsave
      exact ⟨hc, (Except.ok.inj h).symm⟩

/-- The saved server is connected to anew if it is new, or has a new password or connection. -/
theorem reconnects_of_profile {server : Server} {password : Option String} :
    m.reconnects server password = true ↔
      nonempty password = true ∨ profile m.config server.id ≠ some (fields server) := by
  rw [reconnects, profile, Bool.or_eq_true_iff, Bool.or_eq_true_iff, or_assoc]
  apply or_congr_right
  cases hfind : m.config.servers.find? fun s => s.id = server.id with
  | none =>
    have hnone : (m.config.servers.any fun s => s.id = server.id) = false := by
      rw [List.any_eq_false]
      exact List.find?_eq_none.mp hfind
    rw [hnone]
    simp
  | some old =>
    have hid : old.id = server.id := by simpa using List.find?_some hfind
    have hany : (m.config.servers.any fun s => s.id = server.id) = true :=
      List.any_eq_true.mpr ⟨old, List.mem_of_find?_eq_some hfind, decide_eq_true hid⟩
    rw [hany]
    show (!old.sameConnection server) = true ∨ (!true) = true ↔ some (fields old) ≠ _
    rw [Bool.not_eq_true', ← Bool.not_eq_true, sameConnection_iff]
    simp

theorem deleteServer_ok {id : Uuid} {stored : Except String Unit}
    (h : m.deleteServer A id stored = .ok m') : ∃ c, c.Valid A ∧ m' = { m with config := c } ∧
      ∀ s ∈ c.servers, s ∈ m.config.servers := by
  rw [deleteServer] at h
  split at h
  · cases h
  · obtain ⟨rfl, hvalid⟩ := save_ok h
    exact ⟨_, hvalid, rfl, fun s hs => List.mem_of_mem_filter hs⟩

theorem mem_remember {id : Uuid} {browser enabled : Bool} {s : Server} {servers : List Server}
    (hs : s ∈ remember id browser enabled servers) :
    ∃ old ∈ servers, old.id = s.id ∧ fields old = fields s := by
  induction servers with
  | nil => cases hs
  | cons x servers ih =>
    rw [remember] at hs
    split at hs
    · rcases List.mem_cons.mp hs with rfl | hs
      · refine ⟨x, List.mem_cons_self, ?_⟩
        cases browser
        · exact ⟨rfl, rfl⟩
        · exact ⟨rfl, rfl⟩
      · exact ⟨s, List.mem_cons_of_mem x hs, rfl, rfl⟩
    · rcases List.mem_cons.mp hs with rfl | hs
      · exact ⟨s, List.mem_cons_self, rfl, rfl⟩
      · obtain ⟨old, hold, hsame⟩ := ih hs
        exact ⟨old, List.mem_cons_of_mem x hold, hsame⟩

theorem rememberIntegration_ok {id : Uuid} {browser enabled : Bool} {stored : Except String Unit}
    (h : m.rememberIntegration A id browser enabled stored = .ok m') : m' = m ∨
      ∃ c, c.Valid A ∧ m' = { m with config := c } ∧ ∀ s ∈ c.servers,
        ∃ old ∈ m.config.servers, old.id = s.id ∧ fields old = fields s := by
  rw [rememberIntegration] at h
  split at h
  · cases h
  · split at h
    · exact .inl (Except.ok.inj h).symm
    · obtain ⟨rfl, hvalid⟩ := save_ok h
      exact .inr ⟨_, hvalid, rfl, fun s hs => mem_remember hs⟩

theorem observeConnection_config (m : Connections ρ V) (revision : Nat) (o : Observation) :
    (m.observeConnection revision o).config = m.config := by
  rw [Connections.observeConnection]
  split
  · rfl
  · rfl

theorem connectionEvent_config (m : Connections ρ V) (o : Observation) :
    (m.connectionEvent o).config = m.config := by
  rw [Connections.connectionEvent]
  split
  · rfl
  · split
    · rfl
    · rfl

/-- What the manager says of a saved server in a snapshot. -/
theorem content_of_mem {s : Server} (hs : s ∈ m.config.servers) (clocks : Uuid → Nat × Nat) :
    let health := ((m.connectivity s.id).getD Connectivity.default).health (clocks s.id).1
      (clocks s.id).2
    (m.content clocks).connectivity s.id = some health ∧
      (m.content clocks).health s.id = some health.status := by
  constructor
  · show (m.retained s.id).map _ = _
    rw [retained_of_mem hs]
    rfl
  · show ((m.retained s.id).map _).map _ = _
    rw [retained_of_mem hs]
    rfl

variable [DecidableEq V] {toValue : Content ρ → V}

/-- The history of a step that changes no connection. -/
theorem record_of_not {e : Happening ρ} {id : Uuid} (hid : m.changes A e m' id = false) :
    (m.record toValue A e m' h).changed id = h.changed id ∧
      (m.record toValue A e m' h).delivered id = h.delivered id ++ m.deliveryOf e id := by
  constructor
  · show (if _ then _ else _) = _
    rw [hid]
    rfl
  · show (if _ then _ else _) = _
    rw [hid]
    rfl

theorem record_of_changes {e : Happening ρ} {id : Uuid} (hid : m.changes A e m' id = true) :
    (m.record toValue A e m' h).changed id = some m'.now := by
  show (if _ then _ else _) = _
  rw [hid]
  rfl

/-- A change is recorded with the time it was made. -/
theorem record_past {e : Happening ρ} (hi : Inv toValue m h) (hnow : m'.now = m.now) (id : Uuid)
    (t : Nat) (ht : (m.record toValue A e m' h).changed id = some t) : t ≤ m.now := by
  cases hid : m.changes A e m' id with
  | true =>
    rw [record_of_changes hid, hnow] at ht
    exact le_of_eq (Option.some.inj ht).symm
  | false =>
    rw [(record_of_not hid).1] at ht
    exact hi.past id t ht

/-- A step after which the same configuration is saved. -/
theorem record_still {e : Happening ρ} (hconfig : m'.config = m.config)
    (hstores : ∀ id, m.storesPassword A e id = false) :
    (m.record toValue A e m' h).changed = h.changed ∧
      ∀ id, (m.record toValue A e m' h).delivered id = h.delivered id ++ m.deliveryOf e id := by
  have hnot : ∀ id, m.changes A e m' id = false := fun id =>
    changes_false (by rw [hconfig]) (hstores id)
  constructor
  · funext id
    exact (record_of_not (hnot id)).1
  · intro id
    exact (record_of_not (hnot id)).2

/-- A command that stores a configuration with the same connections. -/
theorem Inv.stored {e : Happening ρ} {c : Config} (hi : Inv toValue m h) (hvalid : c.Valid A)
    (hkept : ∀ s ∈ c.servers, ∃ old ∈ m.config.servers, old.id = s.id ∧ fields old = fields s)
    (hstores : ∀ s ∈ c.servers, m.storesPassword A e s.id = false)
    (hsnapshots : (m.record toValue A e { m with config := c } h).snapshots = h.snapshots) :
    Inv toValue { m with config := c } (m.record toValue A e { m with config := c } h) := by
  have hnot : ∀ s ∈ c.servers, m.changes A e { m with config := c } s.id = false := by
    intro s hs
    obtain ⟨old, hold, hid, hfields⟩ := hkept s hs
    apply changes_false _ (hstores s hs)
    calc profile c s.id
        = some (fields s) := profile_of_mem hvalid.serverIds hs
      _ = some (fields old) := by rw [hfields]
      _ = profile m.config old.id := (profile_of_mem hi.ids hold).symm
      _ = profile m.config s.id := by rw [hid]
  refine hi.edit hvalid.serverIds hkept (fun s hs => (record_of_not (hnot s hs)).1)
    (record_past hi rfl) (fun s hs => ?_) hsnapshots
  rw [(record_of_not (hnot s hs)).2]
  exact List.sublist_append_left _ _

/-- A command that fails. -/
theorem Inv.failed {e : Happening ρ} (hi : Inv toValue m h)
    (hstores : ∀ id, m.storesPassword A e id = false)
    (hsnapshots : (m.record toValue A e m h).snapshots = h.snapshots) :
    Inv toValue m (m.record toValue A e m h) := by
  obtain ⟨hchanged, hdelivered⟩ := @record_still _ _ A m m h _ toValue e rfl hstores
  refine hi.still hchanged (fun id => ?_) hsnapshots (le_refl m.now) hi.captured
    (fun a ha => .inl ha) m.channel m.other
  rw [hdelivered]
  exact List.sublist_append_left _ _

/-! ## Every step -/

theorem Inv.saveServer {server : Server} {password : Option String} {stored : Except String Unit}
    (hi : Inv toValue m h) : let m' := m.orElse (m.saveServer A server password stored)
      Inv toValue m' (m.record toValue A (.saveServer server password stored) m' h) := by
  intro m'
  cases hsave : m.saveServer A server password stored with
  | error e =>
    have hm' : m' = m := by
      show m.orElse _ = m
      rw [hsave]
      rfl
    rw [hm']
    refine hi.failed (fun id => ?_) rfl
    rw [storesPassword, hsave]
    exact Bool.and_false _
  | ok m₁ =>
    have hm' : m' = m₁ := by
      show m.orElse _ = m₁
      rw [hsave]
      rfl
    rw [hm']
    obtain ⟨hvalid, hm₁⟩ := saveServer_ok hsave
    have hstores : ∀ id, m.storesPassword A (.saveServer server password stored) id =
        (nonempty password && server.id = id) := by
      intro id
      rw [storesPassword, hsave]
      exact Bool.and_true _
    cases hre : m.reconnects server password with
    | false =>
      rw [hre, if_neg Bool.false_ne_true] at hm₁
      rw [hm₁]
      have hnot := mt reconnects_of_profile.mpr (ne_true_of_eq_false hre)
      obtain ⟨hempty, hprofile⟩ := not_or.mp hnot
      obtain ⟨old, hfind, hfields⟩ := Option.map_eq_some_iff.mp (not_not.mp hprofile)
      have hold := List.mem_of_find?_eq_some hfind
      have hid : old.id = server.id := by simpa using List.find?_some hfind
      refine hi.stored hvalid (fun s hs => ?_) (fun s _ => ?_) rfl
      · rcases mem_upsert_inv hs with ⟨hsame, hsid⟩ | hs
        · exact ⟨old, hold, hid.trans hsid.symm, hfields.trans hsame.symm⟩
        · exact ⟨s, hs, rfl, rfl⟩
      · rw [hstores, eq_false_of_ne_true hempty]
        rfl
    | true =>
      rw [hre, if_pos rfl] at hm₁
      rw [hm₁]
      have hothers : ∀ s ∈ (m.config.upsertServer server).servers, s.id ≠ server.id →
          s ∈ m.config.servers := by
        intro s hs hne
        exact (mem_upsert_inv hs).resolve_left fun h => hne h.2
      let c := m.config.upsertServer server
      let m₂ := { m with config := c }.advanceConnectionRevision server.id
      have hchanged : m.changes A (.saveServer server password stored) m₂ server.id = true := by
        rw [changes, hstores, Bool.or_eq_true_iff, Bool.and_eq_true_iff, bne_iff_ne]
        rcases reconnects_of_profile.mp hre with hpassword | hprofile
        · exact .inr ⟨hpassword, decide_eq_true rfl⟩
        · obtain ⟨s, hs, hid, hsame⟩ := Manager.upsert_self server m.config.servers
          have hnew : profile c server.id = some (fields server) := by
            rw [← hid, ← hsame]
            exact profile_of_mem hvalid.serverIds hs
          left
          show profile c server.id ≠ _
          rw [hnew]
          exact hprofile.symm
      have hsame : ∀ i, i ≠ server.id →
          m.changes A (.saveServer server password stored) m₂ i = false := by
        intro i hi
        apply changes_false (profile_upsert_other hi.symm)
        rw [hstores, decide_eq_false hi.symm]
        exact Bool.and_false _
      refine hi.advance hvalid.serverIds hothers (record_of_changes hchanged)
        (fun i hi => (record_of_not (hsame i hi)).1) (fun i hi => ?_) rfl
      rw [(record_of_not (hsame i hi)).2]
      exact List.sublist_append_left _ _

/-- A command that may store a configuration with the same connections. -/
theorem Inv.orElse {e : Happening ρ} {r : Except String (Connections ρ V)} (hi : Inv toValue m h)
    (hok : ∀ m', r = .ok m' → m' = m ∨ ∃ c, c.Valid A ∧ m' = { m with config := c } ∧
      ∀ s ∈ c.servers, ∃ old ∈ m.config.servers, old.id = s.id ∧ fields old = fields s)
    (hstores : ∀ id, m.storesPassword A e id = false)
    (hsnapshots : ∀ m', (m.record toValue A e m' h).snapshots = h.snapshots) :
    Inv toValue (m.orElse r) (m.record toValue A e (m.orElse r) h) := by
  cases r with
  | error err => exact hi.failed hstores (hsnapshots m)
  | ok m' =>
    rcases hok m' rfl with rfl | ⟨c, hvalid, rfl, hkept⟩
    · exact hi.failed hstores (hsnapshots m')
    · exact hi.stored hvalid hkept (fun s _ => hstores s.id) (hsnapshots _)

/-- A step that leaves what is saved and known, and delivers nothing. -/
theorem Inv.around {e : Happening ρ} (hi : Inv toValue m h) {now : Nat} (hnow : m.now ≤ now)
    {captured : List (Server × Nat)} (hcaptured : ∀ c ∈ captured, c.2 ≤ m.nextConnectionRevision)
    {attempts : List Attempt} (hattempts : ∀ a ∈ attempts, a ∈ m.attempts ∨
      a.revision ≤ m.nextConnectionRevision ∧ a.started = m.now)
    (channel : List Observation) (other : ρ) (hstores : ∀ id, m.storesPassword A e id = false)
    (hsnapshots : ∀ m', (m.record toValue A e m' h).snapshots = h.snapshots) :
    let m' := { m with
      now := now, captured := captured, attempts := attempts, channel := channel, other := other }
    Inv toValue m' (m.record toValue A e m' h) := by
  intro m'
  obtain ⟨hchanged, hdelivered⟩ := @record_still _ _ A m m' h _ toValue e rfl hstores
  refine hi.still hchanged (fun id => ?_) (hsnapshots m') hnow hcaptured hattempts channel other
  rw [hdelivered]
  exact List.sublist_append_left _ _

theorem inv_step {e : Happening ρ} (hi : Inv toValue m h) (hstep : m.step A toValue e = some m') :
    Inv toValue m' (m.record toValue A e m' h) := by
  cases e with
  | tick d =>
    rw [← Option.some.inj hstep]
    exact hi.around (Nat.le_add_right _ _) hi.captured (fun a ha => .inl ha) _ _ (fun _ => rfl)
      fun _ => rfl
  | saveServer server password stored =>
    rw [← Option.some.inj hstep]
    exact hi.saveServer
  | deleteServer id stored =>
    rw [← Option.some.inj hstep]
    apply hi.orElse _ (fun _ => rfl) fun _ => rfl
    intro m' hok
    obtain ⟨c, hvalid, hm', hkept⟩ := deleteServer_ok hok
    exact .inr ⟨c, hvalid, hm', fun s hs => ⟨s, hkept s hs, rfl, rfl⟩⟩
  | saveTunnels tunnels stored =>
    rw [← Option.some.inj hstep]
    apply hi.orElse _ (fun _ => rfl) fun _ => rfl
    intro m' hok
    obtain ⟨hm', hvalid⟩ := save_ok hok
    exact .inr ⟨_, hvalid, hm', fun s hs => ⟨s, hs, rfl, rfl⟩⟩
  | rememberIntegration id browser enabled stored =>
    rw [← Option.some.inj hstep]
    exact hi.orElse (fun m' hok => rememberIntegration_ok hok) (fun _ => rfl) fun _ => rfl
  | runtime other =>
    rw [← Option.some.inj hstep]
    exact hi.around (le_refl _) hi.captured (fun a ha => .inl ha) _ _ (fun _ => rfl) fun _ => rfl
  | capture id =>
    obtain ⟨s, -, rfl⟩ := Option.map_eq_some_iff.mp hstep
    refine hi.around (le_refl _) (fun c hc => ?_) (fun a ha => .inl ha) _ _ (fun _ => rfl)
      fun _ => rfl
    rcases List.mem_cons.mp hc with rfl | hc
    · exact hi.revisions id
    · exact hi.captured c hc
  | start n =>
    obtain ⟨c, hc, rfl⟩ := Option.map_eq_some_iff.mp hstep
    refine hi.around (le_refl _) hi.captured (fun a ha => ?_) _ _ (fun _ => rfl) fun _ => rfl
    rcases List.mem_cons.mp ha with rfl | ha
    · exact .inr ⟨hi.captured c (List.mem_of_getElem? hc), rfl⟩
    · exact .inl ha
  | observe n wall result =>
    obtain ⟨a, ha, rfl⟩ := Option.map_eq_some_iff.mp hstep
    have hmem := List.mem_of_getElem? ha
    let o : Observation := ⟨a.server, a.started, m.now, wall, result⟩
    have hdelivery : ∀ id, m.deliveryOf (.observe n wall result) id =
        [o].filter fun o => o.server.id = id := by
      intro id
      rw [deliveryOf, delivery, ha]
      rfl
    have herased : Inv toValue { m with attempts := m.attempts.eraseIdx n } h :=
      hi.still rfl (fun id => List.Sublist.refl _) rfl (le_refl _) hi.captured
        (fun b hb => .inl (List.mem_of_mem_eraseIdx hb)) _ _
    obtain ⟨hchanged, hdelivered⟩ := @record_still _ _ A m _ h _ toValue
      (.observe n wall result) (observeConnection_config { m with attempts := m.attempts.eraseIdx n } a.revision o)
      fun _ => rfl
    refine herased.observeConnection (hi.attempts a hmem).2 rfl rfl hchanged (fun id => ?_) rfl
    rw [hdelivered, hdelivery]
  | report server started wall result =>
    change (if _ then _ else _) = _ at hstep
    split at hstep
    · rw [← Option.some.inj hstep]
      exact hi.around (le_refl _) hi.captured (fun a ha => .inl ha) _ _ (fun _ => rfl) fun _ => rfl
    · cases hstep
  | receive =>
    obtain ⟨o, ho, rfl⟩ := Option.map_eq_some_iff.mp hstep
    have hdelivery : ∀ id, m.deliveryOf .receive id = [o].filter fun o => o.server.id = id := by
      intro id
      rw [deliveryOf, delivery, ho]
      rfl
    have hreceived : Inv toValue { m with channel := m.channel.tail } h :=
      hi.still rfl (fun id => List.Sublist.refl _) rfl (le_refl _) hi.captured
        (fun b hb => .inl hb) _ _
    obtain ⟨hchanged, hdelivered⟩ := @record_still _ _ A m _ h _ toValue
      .receive (connectionEvent_config { m with channel := m.channel.tail } o) fun _ => rfl
    refine hreceived.connectionEvent hchanged (fun id => ?_) rfl
    rw [hdelivered, hdelivery]
  | lag =>
    obtain ⟨o, -, rfl⟩ := Option.map_eq_some_iff.mp hstep
    exact hi.around (le_refl _) hi.captured (fun a ha => .inl ha) _ _ (fun _ => rfl) fun _ => rfl
  | snapshot clocks =>
    rw [← Option.some.inj hstep]
    obtain ⟨hchanged, hdelivered⟩ := @record_still _ _ A m (m.snapshot toValue clocks).2 h _ toValue
      (.snapshot clocks) rfl fun _ => rfl
    refine hi.snapshot hchanged (fun id => ?_) rfl
    rw [hdelivered]
    exact List.sublist_append_left _ _

/-! ## Every run -/

theorem inv_initial {c : Config} (hids : (c.servers.map Server.id).Nodup) (e : Option String)
    (instanceId : Uuid) (other : ρ) (null : V) (now : Nat) :
    Inv toValue (initial c e instanceId other null now) ⟨fun _ => none, fun _ => [], []⟩ where
  ids := hids
  changed _ _ := rfl
  past _ _ ht := by cases ht
  revisions _ := le_refl _
  captured _ hc := absurd hc List.not_mem_nil
  attempts _ ha := absurd ha List.not_mem_nil
  evidence _ _ := ⟨[], List.Sublist.refl _, fun _ ho => absurd ho List.not_mem_nil, rfl⟩
  later := .nil
  last _ ha := by cases ha

theorem inv_new (A : Addresses) (stored : Except String Config) (instanceId : Uuid) (other : ρ)
    (null : V) (now : Nat) :
    Inv toValue (new A stored instanceId other null now) ⟨fun _ => none, fun _ => [], []⟩ := by
  have hempty : ((⟨[], []⟩ : Config).servers.map Server.id).Nodup := List.nodup_nil
  cases stored with
  | error e => exact inv_initial hempty _ _ _ _ _
  | ok c =>
    rw [new]
    cases hvalid : c.validate A with
    | error e =>
      simp only [bind, Except.bind, hvalid]
      exact inv_initial hempty _ _ _ _ _
    | ok u =>
      simp only [bind, Except.bind, hvalid]
      exact inv_initial (Config.validate_ok hvalid).serverIds _ _ _ _ _

/-- **A status rests on attempts since the last change.** In every run, what a snapshot says of
    a saved server is what some of the results say that were delivered since its connection was
    last changed, all of attempts with its connection that began no earlier than that; without
    any it is unknown. A snapshot has a larger number than the one before it if it shows
    something else, and else the same. -/
theorem status_since_change (A : Addresses) (toValue : Content ρ → V)
    (stored : Except String Config) (instanceId : Uuid) (other : ρ) (null : V) (now : Nat)
    (es : List (Happening ρ)) (m : Connections ρ V) (h : History ρ)
    (hrun : exec (track toValue A) es
      (new A stored instanceId other null now, ⟨fun _ => none, fun _ => [], []⟩) = some (m, h)) :
    (∀ s ∈ m.config.servers, ∀ clocks : Uuid → Nat × Nat, ∃ heard : List Observation,
      heard.Sublist (h.delivered s.id) ∧
      (∀ o ∈ heard, o.server.id = s.id ∧ s.sameConnection o.server = true ∧
        ∀ t, h.changed s.id = some t → t ≤ o.started) ∧
      let known := heard.foldl Connectivity.observeAt Connectivity.default
      let health := known.health (clocks s.id).1 (clocks s.id).2
      (m.snapshot toValue clocks).1.content.connectivity s.id = some health ∧
      (m.snapshot toValue clocks).1.content.health s.id = some health.status ∧
      (heard = [] → health.status = "unknown")) ∧
    ∀ a b : Snapshot ρ, [a, b] <:+: h.snapshots →
      (toValue a.content ≠ toValue b.content → a.revision < b.revision) ∧
      (toValue a.content = toValue b.content → a.revision = b.revision) := by
  have hinv : Inv toValue m h := by
    have hstep : ∀ (s : Connections ρ V × History ρ) (e : Happening ρ) (s' : Connections ρ V × History ρ),
        Inv toValue s.1 s.2 → track toValue A s e = some s' → Inv toValue s'.1 s'.2 := by
      intro s e s' hs htrack
      obtain ⟨m', hm', rfl⟩ := Option.map_eq_some_iff.mp htrack
      exact inv_step hs hm'
    exact exec_invariant hstep (inv_new A stored instanceId other null now) hrun
  constructor
  · intro s hs clocks
    obtain ⟨heard, hsub, hfresh, hfold⟩ := hinv.evidence s hs
    obtain ⟨hconnectivity, hhealth⟩ := content_of_mem hs clocks
    rw [hfold] at hconnectivity hhealth
    refine ⟨heard, hsub, fun o ho => ?_, hconnectivity, hhealth, ?_⟩
    · obtain ⟨hserver, hfields, hstarted⟩ := hfresh o ho
      exact ⟨hserver, sameConnection_iff.mpr hfields.symm, hstarted⟩
    · rintro rfl
      rfl
  · intro a b hab
    have hlater : Later toValue a b := by
      have hchain := hinv.later.infix hab
      rw [List.isChain_cons_cons] at hchain
      exact hchain.1
    rw [Later] at hlater
    constructor
    · intro hne
      rwa [if_neg (Ne.symm hne)] at hlater
    · intro heq
      rw [if_pos heq.symm] at hlater
      exact hlater.symm

/-- An attempt that began before the password was changed does not count, the next one does. -/
theorem changedPassword_unknown :
    let A : Addresses := ⟨fun _ => false, fun _ => none⟩
    let server : Server := ⟨1, "", "a", "h", 22, none, none, none, .password, false, false⟩
    let toValue : Content Unit → Config × Option Health × Option Nat :=
      fun c => (c.config, c.connectivity 1, c.connectionRevisions 1)
    let clocks : Uuid → Nat × Nat := fun _ => (9, 9)
    let es : List (Happening Unit) := [.saveServer server none (.ok ()), .tick 1, .capture 1,
      .start 0, .saveServer server (some "p") (.ok ()), .observe 0 5 (.ok ()), .snapshot clocks,
      .capture 1, .start 0, .observe 0 6 (.ok ()), .snapshot clocks]
    ∃ m h, exec (track toValue A) es (new A (.ok ⟨[], []⟩) 0 () (⟨[], []⟩, none, none) 3,
        ⟨fun _ => none, fun _ => [], []⟩) = some (m, h) ∧
      h.snapshots.map (fun x => (x.revision, x.content.health 1)) =
        [(1, some "unknown"), (2, some "reachable")] ∧
      ∀ a b : Snapshot Unit, [a, b] <:+: h.snapshots → toValue a.content ≠ toValue b.content →
        a.revision < b.revision := by
  intro A server toValue clocks es
  have hsome : (exec (track toValue A) es (new A (.ok ⟨[], []⟩) 0 () (⟨[], []⟩, none, none) 3,
      ⟨fun _ => none, fun _ => [], []⟩)).any (fun s =>
        s.2.snapshots.map (fun x => (x.revision, x.content.health 1)) =
          [(1, some "unknown"), (2, some "reachable")]) = true := by decide
  obtain ⟨⟨m, h⟩, hrun, hm⟩ := (Option.any_eq_true _ _).mp hsome
  refine ⟨m, h, hrun, of_decide_eq_true hm, fun a b hab => ?_⟩
  exact ((status_since_change A toValue (.ok ⟨[], []⟩) 0 () (⟨[], []⟩, none, none) 3 es m h
    hrun).2 a b hab).1

end Connections

end Porthop.Profile
