import Porthop.Profile.Current

/- Every command keeps the invariant, from its start through each of its waits to its end. -/
namespace Porthop.Profile

namespace Manager

variable {A : Addresses} {m m' : Manager}

/-! ## Waiting and ending -/

/-- What the command in progress waits for is no part of what runs or is saved. -/
theorem Core.still (h : Core A m) (w : Option Work) (r : Option (Except String Unit)) :
    Core A { m with work := w, answer := r } :=
  ⟨h.valid, h.apart, h.named, h.ports, h.status⟩

theorem Current.still {ex : Uuid → Prop} {sx : Uuid → Task → Prop} (h : Current m ex sx)
    (w : Option Work) (r : Option (Except String Unit)) :
    Current { m with work := w, answer := r } ex sx :=
  ⟨h.tunnel, h.server⟩

/-- Every task runs what is saved. -/
def Settled (m : Manager) : Prop := Current m (fun _ => False) fun _ _ => False

theorem Settled.current {ex : Uuid → Prop} {sx : Uuid → Task → Prop} (h : Settled m) :
    Current m ex sx :=
  Current.weaken h (fun _ hx => hx.elim) fun _ _ hx => hx.elim

theorem inv_finish (h : Core A m) (hs : Settled m) (r : Except String Unit) :
    Inv A (m.finish r) :=
  ⟨h.still none (some r), hs.still none (some r), trivial⟩

/-- A wait in which every task runs what is saved. -/
theorem inv_wait (h : Core A m) (hs : Settled m) (w : Work) (hw : WorkInv A (m.wait w)) :
    Inv A (m.wait w) :=
  ⟨h.still (some w) m.answer, (hs.still (some w) m.answer).weaken
    (fun _ hx => hx.elim) fun _ _ hx => hx.elim, hw⟩

theorem inv_save {c : Config} {next : Next} (h : Core A m) (hs : Settled m) (hc : c.Apart A)
    (hnext : Carries m c next) : Inv A (m.save A c next) := by
  rw [save]
  split
  · exact inv_finish h hs _
  · split
    · exact inv_finish h hs _
    · next hvalid => exact inv_wait h hs _ ⟨Config.validate_ok hvalid, hc, hnext⟩

/-- The tasks of a list are started again one by one, those behind the first with the tunnel
    that is saved. -/
theorem inv_restart {ids : List Uuid} {server : Bool} (h : Core A m)
    (hcurrent : Current m (fun _ => False) fun i _ => i ∈ ids)
    (hids : ∀ i ∈ ids, i ∈ m.config.tunnels.map Tunnel.id) : Inv A (m.restart ids server) := by
  cases ids with
  | nil =>
    have hs : Settled m := hcurrent.weaken (fun _ hx => hx) fun i _ hx => absurd hx List.not_mem_nil
    rw [restart]
    split
    · exact inv_wait h hs _ trivial
    · exact inv_finish h hs _
  | cons id rest =>
    exact ⟨h.still _ _, (hcurrent.still _ _).weaken (fun _ hx => hx.elim) fun i _ hx => hx, hids⟩

theorem inv_remove {ids : List Uuid} {server : Bool} (h : Core A m)
    (hcurrent : Current m (fun i => i ∈ ids) fun i _ => i ∈ ids) : Inv A (m.remove ids server) := by
  cases ids with
  | nil =>
    have hs : Settled m := hcurrent.weaken (fun i hx => absurd hx List.not_mem_nil)
      fun i _ hx => absurd hx List.not_mem_nil
    rw [remove]
    split
    · exact inv_wait h hs _ trivial
    · exact inv_finish h hs _
  | cons id rest =>
    exact ⟨h.still _ _, (hcurrent.still _ _).weaken (fun i hx => hx) fun i _ hx => hx, trivial⟩

/-! ## What the commands are about to store -/

theorem apart_of_subset {c c' : Config} (h : c.Apart A) (hsub : ∀ t ∈ c'.tunnels, t ∈ c.tunnels) :
    c'.Apart A :=
  fun t ht other hother hne => h t (hsub t ht) other (hsub other hother) hne

theorem fields_withConsents (e : Option Server) (s : Server) :
    fields (Config.withConsents e s) = fields s := rfl

theorem withConsents_id (e : Option Server) (s : Server) :
    (Config.withConsents e s).id = s.id := rfl

/-- The other servers stay. -/
theorem mem_upsert {server s : Server} {servers : List Server} (hs : s ∈ servers)
    (hne : s.id ≠ server.id) : s ∈ Config.upsert server servers := by
  induction servers with
  | nil => cases hs
  | cons x servers ih =>
    rw [Config.upsert]
    rcases List.mem_cons.mp hs with rfl | hs
    · rw [if_neg hne]
      exact List.mem_cons_self
    · split
      · exact List.mem_cons_of_mem _ hs
      · exact List.mem_cons_of_mem _ (ih hs)

/-- The server itself is among those to be stored, with its own fields. -/
theorem upsert_self (server : Server) (servers : List Server) :
    ∃ s ∈ Config.upsert server servers, s.id = server.id ∧ fields s = fields server := by
  induction servers with
  | nil => exact ⟨_, List.mem_cons_self, rfl, rfl⟩
  | cons x servers ih =>
    rw [Config.upsert]
    split
    · exact ⟨_, List.mem_cons_self, rfl, rfl⟩
    · obtain ⟨s, hs, hid, hfields⟩ := ih
      exact ⟨s, List.mem_cons_of_mem _ hs, hid, hfields⟩

/-- The server with an id is the one that is found, as no two have the same. -/
theorem find_of_mem {servers : List Server} {s : Server} (hnodup : (servers.map Server.id).Nodup)
    (hs : s ∈ servers) : (servers.find? fun x => x.id = s.id) = some s := by
  induction servers with
  | nil => cases hs
  | cons x servers ih =>
    rw [List.map_cons, List.nodup_cons] at hnodup
    rcases List.mem_cons.mp hs with rfl | hmem
    · exact List.find?_cons_of_pos (decide_eq_true rfl)
    · have hne : x.id ≠ s.id := by
        intro heq
        apply hnodup.1
        rw [heq]
        exact List.mem_map_of_mem hmem
      rw [List.find?_cons_of_neg (by simpa using hne)]
      exact ih hnodup.2 hmem

theorem inv_saveServer (h : Core A m) (hs : Settled m) (server : Server)
    (password : Option String) : Inv A (m.saveServer A server password) := by
  rw [saveServer]
  split
  · exact inv_finish h hs _
  · refine inv_save h hs (apart_of_subset h.apart fun t ht => ht) ⟨rfl, ?_, ?_⟩
    · intro s hmem hne
      exact mem_upsert hmem hne
    · intro hreconnect s hmem hid
      obtain ⟨s', hs', hid', hfields⟩ := upsert_self server m.config.servers
      refine ⟨s', hs', hid', hfields.trans ?_⟩
      have hfind := find_of_mem h.valid.serverIds hmem
      rw [hid] at hfind
      rw [hfind, Bool.or_eq_false_iff] at hreconnect
      have hsame : s.sameConnection server = true := by simpa using hreconnect.2
      exact (sameConnection_iff.mp hsame).symm

theorem inv_deleteServer (h : Core A m) (hs : Settled m) (id : Uuid) :
    Inv A (m.deleteServer A id) := by
  rw [deleteServer]
  split
  · exact inv_finish h hs _
  · have hkept : ∀ t ∈ m.config.tunnels,
        t.id ∉ (m.config.tunnels.filter fun t => t.serverId = id).map Tunnel.id → t.serverId ≠ id := by
      intro t ht hnot hserver
      apply hnot
      exact List.mem_map_of_mem (List.mem_filter.mpr ⟨ht, decide_eq_true hserver⟩)
    refine inv_save h hs (apart_of_subset h.apart fun t ht => List.mem_of_mem_filter ht) ⟨?_, ?_⟩
    · intro t ht hnot
      exact List.mem_filter.mpr ⟨ht, decide_eq_true (hkept t ht hnot)⟩
    · intro t ht hnot s hmem hsid
      refine List.mem_filter.mpr ⟨hmem, decide_eq_true ?_⟩
      rw [hsid]
      exact hkept t ht hnot

theorem mem_upsertTunnel {tunnel t : Tunnel} {tunnels : List Tunnel} :
    t ∈ upsertTunnel tunnel tunnels → t = tunnel ∨ t ∈ tunnels := by
  induction tunnels with
  | nil =>
    intro h
    exact .inl (List.mem_singleton.mp h)
  | cons x tunnels ih =>
    rw [upsertTunnel]
    split
    · intro h
      rcases List.mem_cons.mp h with rfl | h
      · exact .inl rfl
      · exact .inr (List.mem_cons_of_mem _ h)
    · intro h
      rcases List.mem_cons.mp h with rfl | h
      · exact .inr List.mem_cons_self
      · rcases ih h with rfl | h
        · exact .inl rfl
        · exact .inr (List.mem_cons_of_mem _ h)

theorem upsertTunnel_self (tunnel : Tunnel) (tunnels : List Tunnel) :
    tunnel ∈ upsertTunnel tunnel tunnels := by
  induction tunnels with
  | nil => exact List.mem_cons_self
  | cons x tunnels ih =>
    rw [upsertTunnel]
    split
    · exact List.mem_cons_self
    · exact List.mem_cons_of_mem _ ih

theorem upsertTunnel_other {tunnel t : Tunnel} {tunnels : List Tunnel} (ht : t ∈ tunnels)
    (hne : t.id ≠ tunnel.id) : t ∈ upsertTunnel tunnel tunnels := by
  induction tunnels with
  | nil => cases ht
  | cons x tunnels ih =>
    rw [upsertTunnel]
    rcases List.mem_cons.mp ht with rfl | ht
    · rw [if_neg hne]
      exact List.mem_cons_self
    · split
      · exact List.mem_cons_of_mem _ ht
      · exact List.mem_cons_of_mem _ (ih ht)

/-- The tunnels stay apart where the saved one is apart from the others. -/
theorem apart_upsertTunnel {c : Config} {tunnel : Tunnel} (h : c.Apart A)
    (hnew : ∀ other ∈ c.tunnels, other.id ≠ tunnel.id → tunnel.Apart A other) :
    Config.Apart A { c with tunnels := upsertTunnel tunnel c.tunnels } := by
  intro t ht other hother hne
  rcases mem_upsertTunnel ht with rfl | hold
  · rcases mem_upsertTunnel hother with rfl | hother
    · exact absurd rfl hne
    · exact hnew other hother hne
  · rcases mem_upsertTunnel hother with rfl | hother
    · exact (hnew t hold hne.symm).symm
    · exact h t hold other hother hne

theorem inv_saveTunnel (h : Core A m) (hs : Settled m) (tunnel : Tunnel) :
    Inv A (m.saveTunnel A tunnel) := by
  rw [saveTunnel]
  split
  · exact inv_finish h hs _
  · next hchecks =>
    have hunique : tunnel.validateUnique A m.config.tunnels = .ok () := by
      cases hpairs : tunnel.pairs A with
      | error e =>
        rw [hpairs] at hchecks
        cases hchecks
      | ok ps =>
        cases hserver : m.server tunnel.serverId with
        | error e =>
          rw [hpairs, hserver] at hchecks
          cases hchecks
        | ok s =>
          rw [hpairs, hserver] at hchecks
          exact hchecks
    refine inv_save h hs (apart_upsertTunnel h.apart (Tunnel.validateUnique_ok hunique).2)
      ⟨rfl, List.mem_map_of_mem (upsertTunnel_self _ _), ?_, ?_⟩
    · intro t ht hne
      exact upsertTunnel_other ht hne
    · intro hidle t ht
      by_contra hlive
      have hactive := h.status tunnel.id t ht (eq_true_of_ne_false hlive)
      rw [hactive] at hidle
      cases hidle

theorem inv_deleteTunnel (h : Core A m) (hs : Settled m) (id : Uuid) :
    Inv A (m.begin A (.deleteTunnel id)) := by
  refine inv_save h hs (apart_of_subset h.apart fun t ht => List.mem_of_mem_filter ht) ⟨rfl, ?_⟩
  intro t ht hne
  exact List.mem_filter.mpr ⟨ht, decide_eq_true hne⟩

theorem Settled.connect {id : Uuid} (hs : Settled m) (hconnect : m.connect A id = .ok m') :
    Settled m' := by
  rcases connect_ok hconnect with rfl | ⟨hrunning, -⟩
  · exact hs
  · exact (Current.connect hs hconnect hrunning).weaken (fun _ hx => hx.1) fun _ _ hx => hx.1

theorem inv_begin (h : Core A m) (hs : Settled m) (c : Command) : Inv A (m.begin A c) := by
  cases c with
  | saveServer server password => exact inv_saveServer h hs server password
  | deleteServer id => exact inv_deleteServer h hs id
  | saveTunnel tunnel => exact inv_saveTunnel h hs tunnel
  | deleteTunnel id => exact inv_deleteTunnel h hs id
  | setTunnelConnected id connected =>
    rw [begin]
    split
    · split
      · exact inv_finish h hs _
      · next m' hconnect =>
        exact inv_finish (h.connect hconnect fun i t _ ht hlive => hs.tunnel i t ht hlive not_false)
          (hs.connect hconnect) _
    · exact inv_wait h hs _ trivial

/-! ## The new configuration is stored -/

/-- The tunnels whose tasks a command goes on to stop. -/
def nextTunnels : Next → Uuid → Prop
  | .server _ _, _ => False
  | .tunnel id active, i => active = true ∧ i = id
  | .withoutServer ids, i => i ∈ ids
  | .withoutTunnel id, i => i = id

/-- The tasks whose server may be another one then. -/
def nextServers : Next → Uuid → Task → Prop
  | .server id reconnect, _, t => reconnect = true ∧ t.tunnel.serverId = id
  | .tunnel _ _, _, _ => False
  | .withoutServer ids, i, _ => i ∈ ids
  | .withoutTunnel _, _, _ => False

theorem Core.stored {c : Config} (h : Core A m) (hvalid : c.Valid A) (hapart : c.Apart A) :
    Core A { m with config := c } :=
  ⟨hvalid, hapart, h.named, h.ports, h.status⟩

theorem Settled.stored {c : Config} {next : Next} (h : Core A m) (hs : Settled m)
    (hnext : Carries m c next) : Current { m with config := c } (nextTunnels next) (nextServers next) := by
  have hrun : ∀ i t, m.tasks i = some t → t.live = true → t.tunnel ∈ m.config.tunnels ∧
      t.tunnel.id = i ∧ ServerCurrent m.config t :=
    fun i t ht hlive => ⟨hs.tunnel i t ht hlive not_false, h.named i t ht hlive,
      hs.server i t ht hlive not_false⟩
  cases next with
  | server id reconnect =>
    obtain ⟨htunnels, hothers, hself⟩ := hnext
    refine ⟨fun i t ht hlive _ => ?_, fun i t ht hlive hnot => ?_⟩
    · show t.tunnel ∈ c.tunnels
      rw [htunnels]
      exact (hrun i t ht hlive).1
    · obtain ⟨s, hmem, hsid, hfields⟩ := (hrun i t ht hlive).2.2
      by_cases hid : s.id = id
      · have hreconnect : reconnect = false := by
          apply eq_false_of_ne_true
          intro hre
          exact hnot ⟨hre, hsid.symm.trans hid⟩
        obtain ⟨s', hmem', hsid', hfields'⟩ := hself hreconnect s hmem hid
        exact ⟨s', hmem', (hsid'.trans hid.symm).trans hsid, hfields'.trans hfields⟩
      · exact ⟨s, hothers s hmem hid, hsid, hfields⟩
  | tunnel id active =>
    obtain ⟨hservers, -, hothers, hidle⟩ := hnext
    refine ⟨fun i t ht hlive hnot => ?_, fun i t ht hlive _ => ?_⟩
    · obtain ⟨hmem, hid, -⟩ := hrun i t ht hlive
      apply hothers t.tunnel hmem
      rintro rfl
      by_cases hactive : active = true
      · exact hnot ⟨hactive, hid.symm⟩
      · rw [hidle (eq_false_of_ne_true hactive) t (hid ▸ ht)] at hlive
        cases hlive
    · show ServerCurrent c t
      rw [ServerCurrent, hservers]
      exact (hrun i t ht hlive).2.2
  | withoutServer ids =>
    obtain ⟨htunnels, hservers⟩ := hnext
    refine ⟨fun i t ht hlive hnot => ?_, fun i t ht hlive hnot => ?_⟩
    · obtain ⟨hmem, rfl, -⟩ := hrun i t ht hlive
      exact htunnels t.tunnel hmem hnot
    · obtain ⟨hmem, rfl, s, hs, hsid, hfields⟩ := hrun i t ht hlive
      exact ⟨s, hservers t.tunnel hmem hnot s hs hsid, hsid, hfields⟩
  | withoutTunnel id =>
    obtain ⟨hservers, hothers⟩ := hnext
    refine ⟨fun i t ht hlive hnot => ?_, fun i t ht hlive _ => ?_⟩
    · obtain ⟨hmem, hid, -⟩ := hrun i t ht hlive
      apply hothers t.tunnel hmem
      rw [hid]
      exact hnot
    · show ServerCurrent c t
      rw [ServerCurrent, hservers]
      exact (hrun i t ht hlive).2.2

theorem inv_stored {c : Config} {next : Next} (h : Core A m) (hs : Settled m)
    (hvalid : c.Valid A) (hapart : c.Apart A) (hnext : Carries m c next) :
    Inv A ({ m with config := c }.proceed next) := by
  have hcore := h.stored hvalid hapart
  have hcurrent := hs.stored h hnext
  cases next with
  | server id reconnect =>
    cases reconnect with
    | true =>
      exact ⟨hcore.still _ _, (hcurrent.still _ _).weaken (fun _ hx => hx) fun _ _ hx => hx.2,
        trivial⟩
    | false =>
      exact inv_finish hcore (hcurrent.weaken (fun _ hx => hx) fun _ _ hx => absurd hx.1 Bool.false_ne_true) _
  | tunnel id active =>
    cases active with
    | true =>
      refine ⟨hcore.still _ _, (hcurrent.still _ _).weaken (fun _ hx => hx.2) fun _ _ hx => hx.elim, ?_⟩
      intro i hi
      rw [List.mem_singleton.mp hi]
      exact hnext.2.1
    | false =>
      exact inv_finish hcore (hcurrent.weaken (fun _ hx => absurd hx.1 Bool.false_ne_true) fun _ _ hx => hx) _
  | withoutServer ids => exact inv_remove hcore hcurrent
  | withoutTunnel id =>
    exact inv_remove hcore (hcurrent.weaken (fun _ hx => List.mem_singleton.mpr hx)
      fun _ _ hx => hx.elim)

/-! ## A task has been stopped -/

theorem disconnected_task {id i : Uuid} {status : Option Status} {t : Task}
    (ht : (m.disconnected id status).tasks i = some t) : i ≠ id ∧ m.tasks i = some t := by
  change update m.tasks id none i = some t at ht
  by_cases hi : i = id
  · subst hi
    rw [update_same] at ht
    cases ht
  · rw [update_other hi] at ht
    exact ⟨hi, ht⟩

theorem quieter_disconnected (h : Core A m) (id : Uuid) (status : Option Status) :
    Quieter m (m.disconnected id status) := by
  refine ⟨rfl, fun i t ht hlive => ?_, fun i t ht hlive => ?_⟩
  · exact ⟨t, (disconnected_task ht).2, hlive, rfl, rfl⟩
  · obtain ⟨hi, ht⟩ := disconnected_task ht
    show (update m.status id status i).any statusActive = true
    rw [update_other hi]
    exact h.status i t ht hlive

/-- What is exempt for a stopped task is exempt no more. -/
theorem Current.disconnected {ex : Uuid → Prop} {sx : Uuid → Task → Prop} (h : Current m ex sx)
    (id : Uuid) (status : Option Status) : Current (m.disconnected id status)
      (fun i => ex i ∧ i ≠ id) fun i t => sx i t ∧ i ≠ id := by
  refine ⟨fun i t ht hlive hnot => ?_, fun i t ht hlive hnot => ?_⟩
  · obtain ⟨hi, ht⟩ := disconnected_task ht
    exact h.tunnel i t ht hlive fun hx => hnot ⟨hx, hi⟩
  · obtain ⟨hi, ht⟩ := disconnected_task ht
    exact h.server i t ht hlive fun hx => hnot ⟨hx, hi⟩

theorem mem_rest {id i : Uuid} {rest : List Uuid} (h : i ∈ id :: rest ∧ i ≠ id) : i ∈ rest :=
  (List.mem_cons.mp h.1).resolve_left h.2

theorem disconnected_running (id : Uuid) (status : Option Status) :
    (m.disconnected id status).running id = false := by
  show (update m.tasks id none id).any _ = false
  rw [update_same]
  rfl

theorem inv_restarted {id : Uuid} {rest : List Uuid} {server : Bool} (h : Core A m)
    (hcurrent : Current m (fun i => i = id) fun i _ => i ∈ id :: rest)
    (hids : ∀ i ∈ id :: rest, i ∈ m.config.tunnels.map Tunnel.id) :
    ∃ m', (m.disconnected id (some .disconnected)).connect A id = .ok m' ∧
      Inv A (m'.restart rest server) := by
  have hcore := h.quieter (quieter_disconnected h id (some .disconnected))
  have hdown : Current (m.disconnected id (some .disconnected)) (fun _ => False)
      fun i _ => i ∈ rest :=
    (hcurrent.disconnected id _).weaken (fun i hx => hx.2 hx.1) fun i t hx => mem_rest hx
  obtain ⟨m', hm'⟩ := connect_saved hcore (hids id List.mem_cons_self)
  have hconfig : m'.config = m.config := by
    rcases connect_ok hm' with rfl | ⟨-, tunnel, -, -, s, -, -, rfl⟩
    · rfl
    · rfl
  refine ⟨m', hm', inv_restart ?_ ?_ fun i hi => ?_⟩
  · exact hcore.connect hm' fun i t _ ht hlive => hdown.tunnel i t ht hlive not_false
  · exact (hdown.connect hm' (disconnected_running id _)).weaken (fun _ hx => hx.1)
      fun _ _ hx => hx.1
  · rw [hconfig]
    exact hids i (List.mem_cons_of_mem id hi)

/-! ## Every step -/

theorem Carries.quieter {c : Config} {next : Next} (h : Carries m c next) (hq : Quieter m m') :
    Carries m' c next := by
  cases next with
  | tunnel id active =>
    obtain ⟨hservers, hid, hothers, hidle⟩ := h
    rw [Carries, hq.config]
    refine ⟨hservers, hid, hothers, fun hactive t' ht' => ?_⟩
    apply eq_false_of_ne_true
    intro hlive'
    obtain ⟨t, ht, hlive, -⟩ := hq.tasks id t' ht' hlive'
    rw [hidle hactive t ht] at hlive
    cases hlive
  | server id reconnect =>
    rw [Carries, hq.config]
    exact h
  | withoutServer ids =>
    rw [Carries, hq.config]
    exact h
  | withoutTunnel id =>
    rw [Carries, hq.config]
    exact h

theorem WorkInv.quieter (h : WorkInv A m) (hq : Quieter m m') (hwork : m'.work = m.work) :
    WorkInv A m' := by
  rw [WorkInv] at h ⊢
  rw [hwork]
  split at h
  · exact ⟨h.1, h.2.1, h.2.2.quieter hq⟩
  · rw [hq.config]
    exact h
  · trivial

theorem inv_task {id : Uuid} {e : TaskEvent} (h : Inv A m)
    (hstep : ((m.tasks id).bind fun t => m.taskEvent id t e) = some m') : Inv A m' := by
  obtain ⟨t, ht, hevent⟩ := Option.bind_eq_some_iff.mp hstep
  obtain ⟨hq, hwork⟩ := quieter_taskEvent h.core ht hevent
  refine ⟨h.core.quieter hq, ?_, h.work.quieter hq hwork⟩
  rw [hwork]
  exact h.current.quieter hq (serverExempt_tunnel m.work)

theorem inv_closed {id : Uuid} (h : Inv A m) (hwork : m.work = some (.closing id)) :
    Inv A (m.restart (m.activeTunnels id) true) := by
  have hcurrent := h.current
  rw [hwork] at hcurrent
  refine inv_restart h.core ?_ fun i hi => ?_
  · refine ⟨hcurrent.tunnel, fun i t ht hlive hnot => hcurrent.server i t ht hlive fun hx => ?_⟩
    apply hnot
    obtain rfl := h.core.named i t ht hlive
    have hactive : t.tunnel.serverId = id ∧ m.running t.tunnel.id = true :=
      ⟨hx, running_of_live ht hlive⟩
    exact List.mem_map_of_mem (List.mem_filter.mpr
      ⟨hcurrent.tunnel t.tunnel.id t ht hlive not_false, decide_eq_true hactive⟩)
  · obtain ⟨t, ht, rfl⟩ := List.mem_map.mp hi
    exact List.mem_map_of_mem (List.mem_of_mem_filter ht)

theorem inv_step {e : Event} (h : Inv A m) (hstep : m.step A e = some m') : Inv A m' := by
  obtain ⟨hcore, hcurrent, hinv⟩ := h
  unfold step at hstep
  split at hstep
  · exact inv_task ⟨hcore, hcurrent, hinv⟩ hstep
  · next c hwork =>
    rw [hwork] at hcurrent
    rw [← Option.some.inj hstep]
    exact inv_begin hcore hcurrent c
  · next r c next hwork =>
    rw [hwork] at hcurrent
    rw [WorkInv, hwork] at hinv
    cases r with
    | error e =>
      rw [← Option.some.inj hstep]
      exact inv_finish hcore hcurrent _
    | ok u =>
      rw [← Option.some.inj hstep]
      exact inv_stored hcore hcurrent hinv.1 hinv.2.1 hinv.2.2
  · next id hwork =>
    rw [← Option.some.inj hstep]
    exact inv_closed ⟨hcore, hcurrent, hinv⟩ hwork
  · next id rest server hwork =>
    rw [hwork] at hcurrent
    rw [WorkInv, hwork] at hinv
    obtain ⟨m₁, hm₁, hrestart⟩ := @inv_restarted A m id rest server hcore hcurrent hinv
    rw [hm₁] at hstep
    rw [← Option.some.inj hstep]
    exact hrestart
  · next id rest server hwork =>
    rw [hwork] at hcurrent
    rw [← Option.some.inj hstep]
    exact inv_remove (hcore.quieter (quieter_disconnected hcore id none))
      ((hcurrent.disconnected id none).weaken (fun _ hx => mem_rest hx) fun _ _ hx => mem_rest hx)
  · next id hwork =>
    rw [hwork] at hcurrent
    rw [← Option.some.inj hstep]
    have hsettled : Settled (m.disconnected id (some .disconnected)) :=
      (hcurrent.disconnected id _).weaken (fun _ hx => hx.1) fun _ _ hx => hx.1
    exact inv_finish (hcore.quieter (quieter_disconnected hcore id _)) hsettled _
  · next r hwork =>
    rw [hwork] at hcurrent
    rw [← Option.some.inj hstep]
    exact inv_finish hcore hcurrent _
  · next r hwork =>
    rw [hwork] at hcurrent
    rw [← Option.some.inj hstep]
    exact inv_finish hcore hcurrent _
  · cases hstep

theorem inv_initial {c : Config} {e : Option String} (hvalid : c.Valid A) (hapart : c.Apart A) :
    Inv A (initial c e) := by
  have hnone : ∀ id t, (initial c e).tasks id = some t → False := by
    intro id t ht
    cases ht
  refine ⟨⟨hvalid, hapart, ?_, ?_, ?_⟩, ⟨?_, ?_⟩, trivial⟩
  · exact fun id t ht => (hnone id t ht).elim
  · exact fun id _ t _ _ ht => (hnone id t ht).elim
  · exact fun id t ht => (hnone id t ht).elim
  · exact fun id t ht => (hnone id t ht).elim
  · exact fun id t ht => (hnone id t ht).elim

theorem inv_empty (e : Option String) : Inv A (initial ⟨[], []⟩ e) := by
  apply inv_initial
  · exact ⟨fun _ hs => absurd hs List.not_mem_nil, List.nodup_nil,
      fun _ ht => absurd ht List.not_mem_nil, fun _ ht => absurd ht List.not_mem_nil, List.nodup_nil⟩
  · exact fun t ht => absurd ht List.not_mem_nil

/-- The manager starts from what is stored if that is valid, and else from nothing. -/
theorem inv_new {stored : Except String Config} (h : ∀ c, stored = .ok c → c.Apart A) :
    Inv A (new A stored) := by
  cases stored with
  | error e => exact inv_empty (some e)
  | ok c =>
    rw [new]
    cases hvalid : c.validate A with
    | error e =>
      simp only [bind, Except.bind, hvalid]
      exact inv_empty (some e)
    | ok u =>
      simp only [bind, Except.bind, hvalid]
      exact inv_initial (Config.validate_ok hvalid) (h c rfl)

end Manager

end Porthop.Profile
