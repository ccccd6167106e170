import Porthop.Lib.Run
import Porthop.Profile.Manager

/- Saved and running tunnels stay disjoint and current.

   A task runs what is saved, but for those that the command in progress is about to stop:
   these may run an older tunnel, or a tunnel of a server that was changed or deleted. Which
   they are is read off what the command waits for. -/
namespace Porthop.Profile

namespace Manager

variable {A : Addresses} {m m' : Manager}

/-! ## The invariant -/

/-- What a connection is made with. -/
def fields (s : Server) : String × UInt16 × String × Option String × Option String ×
    Option String × AuthMethod :=
  (s.sshHost, s.sshPort, s.sshUser, s.identityFile, s.agentSource, s.agentKeyFingerprint,
    s.authMethod)

theorem sameConnection_iff {s other : Server} :
    s.sameConnection other = true ↔ fields s = fields other := by
  simp only [Server.sameConnection, Server.sameDestination, decide_eq_true_eq, fields,
    Prod.mk.injEq, Bool.decide_and, Bool.and_eq_true]
  constructor
  · rintro ⟨⟨h₁, h₂, h₃⟩, h₄, h₅, h₆, h₇⟩
    exact ⟨h₁, h₂, h₃, h₄, h₅, h₆, h₇⟩
  · rintro ⟨h₁, h₂, h₃, h₄, h₅, h₆, h₇⟩
    exact ⟨⟨h₁, h₂, h₃⟩, h₄, h₅, h₆, h₇⟩

/-- What holds whatever the command in progress waits for. -/
structure Core (A : Addresses) (m : Manager) : Prop where
  valid : m.config.Valid A
  apart : m.config.Apart A
  named : ∀ id t, m.tasks id = some t → t.live = true → t.tunnel.id = id
  ports : ∀ id id' t t', id ≠ id' → m.tasks id = some t → t.live = true →
    m.tasks id' = some t' → t'.live = true →
      List.Disjoint t.tunnel.localPorts t'.tunnel.localPorts
  status : ∀ id t, m.tasks id = some t → t.live = true → (m.status id).any statusActive = true

/-- The task forwards for a server as it is saved. -/
def ServerCurrent (c : Config) (t : Task) : Prop :=
  ∃ s ∈ c.servers, s.id = t.tunnel.serverId ∧ fields s = fields t.server

/-- The tasks run what is saved, but for some. -/
structure Current (m : Manager) (tunnelExempt : Uuid → Prop) (serverExempt : Uuid → Task → Prop) :
    Prop where
  tunnel : ∀ id t, m.tasks id = some t → t.live = true → ¬ tunnelExempt id →
    t.tunnel ∈ m.config.tunnels
  server : ∀ id t, m.tasks id = some t → t.live = true → ¬ serverExempt id t →
    ServerCurrent m.config t

/-- The tunnel of a task may be older than the saved one. -/
def tunnelExempt : Option Work → Uuid → Prop
  | some (.restarting id _ _), i => i = id
  | some (.removing id rest _), i => i ∈ id :: rest
  | _, _ => False

/-- The server of a task may be older than the saved one. -/
def serverExempt : Option Work → Uuid → Task → Prop
  | some (.closing server), _, t => t.tunnel.serverId = server
  | some (.restarting id rest _), i, _ => i ∈ id :: rest
  | some (.removing id rest _), i, _ => i ∈ id :: rest
  | _, _, _ => False

/-- What a configuration to be stored leaves as it is. -/
def Carries (m : Manager) (c : Config) : Next → Prop
  | .server id reconnect => c.tunnels = m.config.tunnels ∧
      (∀ s ∈ m.config.servers, s.id ≠ id → s ∈ c.servers) ∧
      (reconnect = false → ∀ s ∈ m.config.servers, s.id = id →
        ∃ s' ∈ c.servers, s'.id = id ∧ fields s' = fields s)
  | .tunnel id active => c.servers = m.config.servers ∧ id ∈ c.tunnels.map Tunnel.id ∧
      (∀ t ∈ m.config.tunnels, t.id ≠ id → t ∈ c.tunnels) ∧
      (active = false → ∀ t, m.tasks id = some t → t.live = false)
  | .withoutServer ids => (∀ t ∈ m.config.tunnels, t.id ∉ ids → t ∈ c.tunnels) ∧
      ∀ t ∈ m.config.tunnels, t.id ∉ ids → ∀ s ∈ m.config.servers, s.id = t.serverId →
        s ∈ c.servers
  | .withoutTunnel id => c.servers = m.config.servers ∧
      ∀ t ∈ m.config.tunnels, t.id ≠ id → t ∈ c.tunnels

def WorkInv (A : Addresses) (m : Manager) : Prop :=
  match m.work with
  | some (.saving c next) => c.Valid A ∧ c.Apart A ∧ Carries m c next
  | some (.restarting id rest _) => ∀ i ∈ id :: rest, i ∈ m.config.tunnels.map Tunnel.id
  | _ => True

structure Inv (A : Addresses) (m : Manager) : Prop where
  core : Core A m
  current : Current m (tunnelExempt m.work) (serverExempt m.work)
  work : WorkInv A m

theorem update_same {α : Type} (f : Uuid → Option α) (id : Uuid) (a : Option α) :
    update f id a id = a := if_pos rfl

theorem update_other {α : Type} {f : Uuid → Option α} {id i : Uuid} {a : Option α} (h : i ≠ id) :
    update f id a i = f i := if_neg h

theorem Current.weaken {ex ex' : Uuid → Prop} {sx sx' : Uuid → Task → Prop}
    (h : Current m ex sx) (hex : ∀ i, ex i → ex' i) (hsx : ∀ i t, sx i t → sx' i t) :
    Current m ex' sx' where
  tunnel id t ht hlive hnot := h.tunnel id t ht hlive fun hx => hnot (hex id hx)
  server id t ht hlive hnot := h.server id t ht hlive fun hx => hnot (hsx id t hx)

/-! ## Tasks go on by themselves -/

/-- Nothing new runs: the tasks that do ran before, with the same tunnel and server. -/
structure Quieter (m m' : Manager) : Prop where
  config : m'.config = m.config
  tasks : ∀ id t', m'.tasks id = some t' → t'.live = true →
    ∃ t, m.tasks id = some t ∧ t.live = true ∧ t.tunnel = t'.tunnel ∧ t.server = t'.server
  status : ∀ id t', m'.tasks id = some t' → t'.live = true →
    (m'.status id).any statusActive = true

theorem Core.quieter (h : Core A m) (hq : Quieter m m') : Core A m' where
  valid := by
    rw [hq.config]
    exact h.valid
  apart := by
    rw [hq.config]
    exact h.apart
  named id t' ht' hlive' := by
    obtain ⟨t, ht, hlive, htunnel, -⟩ := hq.tasks id t' ht' hlive'
    rw [← htunnel]
    exact h.named id t ht hlive
  ports id₁ id₂ t₁ t₂ hne ht₁ hlive₁ ht₂ hlive₂ := by
    obtain ⟨t, ht, hlive, htunnel, -⟩ := hq.tasks id₁ t₁ ht₁ hlive₁
    obtain ⟨u, hu, hulive, hutunnel, -⟩ := hq.tasks id₂ t₂ ht₂ hlive₂
    rw [← htunnel, ← hutunnel]
    exact h.ports id₁ id₂ t u hne ht hlive hu hulive
  status := hq.status

theorem Current.quieter {ex : Uuid → Prop} {sx : Uuid → Task → Prop} (h : Current m ex sx)
    (hq : Quieter m m') (hsx : ∀ i t t', t.tunnel = t'.tunnel → sx i t → sx i t') :
    Current m' ex sx where
  tunnel id t' ht' hlive' hnot := by
    obtain ⟨t, ht, hlive, htunnel, -⟩ := hq.tasks id t' ht' hlive'
    rw [← htunnel, hq.config]
    exact h.tunnel id t ht hlive hnot
  server id t' ht' hlive' hnot := by
    obtain ⟨t, ht, hlive, htunnel, hserver⟩ := hq.tasks id t' ht' hlive'
    rw [ServerCurrent, ← htunnel, ← hserver, hq.config]
    exact h.server id t ht hlive fun hx => hnot (hsx id t t' htunnel hx)

theorem serverExempt_tunnel (w : Option Work) (i : Uuid) (t t' : Task)
    (h : t.tunnel = t'.tunnel) (hx : serverExempt w i t) : serverExempt w i t' := by
  match w with
  | some (.closing server) =>
    have hserver : t.tunnel.serverId = server := hx
    rw [h] at hserver
    exact hserver
  | some (.restarting id rest server) => exact hx
  | some (.removing id rest server) => exact hx
  | some (.saving c next) => exact hx
  | some (.stopping id) => exact hx
  | some .integrating => exact hx
  | some .cleaning => exact hx
  | none => exact hx

/-- What a task does by itself. -/
theorem quieter_taskEvent {id : Uuid} {t : Task} {e : TaskEvent} (h : Core A m)
    (ht : m.tasks id = some t) (hstep : m.taskEvent id t e = some m') :
    Quieter m m' ∧ m'.work = m.work := by
  have hkeep : ∀ (phase : Phase) (status : Uuid → Option Status),
      (({ t with phase := phase } : Task).live = true → t.live = true) →
      (({ t with phase := phase } : Task).live = true → (status id).any statusActive = true) →
      (∀ i, i ≠ id → status i = m.status i) →
      Quieter m { m with
        tasks := update m.tasks id (some { t with phase := phase }), status := status } := by
    intro phase status hlive hstatus hother
    refine ⟨rfl, fun i t' ht' hl => ?_, fun i t' ht' hl => ?_⟩
    · change update m.tasks id _ i = some t' at ht'
      by_cases hi : i = id
      · subst hi
        rw [update_same] at ht'
        obtain rfl := Option.some.inj ht'
        exact ⟨t, ht, hlive hl, rfl, rfl⟩
      · rw [update_other hi] at ht'
        exact ⟨t', ht', hl, rfl, rfl⟩
    · change update m.tasks id _ i = some t' at ht'
      by_cases hi : i = id
      · subst hi
        rw [update_same] at ht'
        obtain rfl := Option.some.inj ht'
        exact hstatus hl
      · rw [update_other hi] at ht'
        show (status i).any statusActive = true
        rw [hother i hi]
        exact h.status i t' ht' hl
  have hupdate : ∀ (s : Status) (i : Uuid), i ≠ id → update m.status id (some s) i = m.status i :=
    fun s i hi => update_other hi
  have hsame : ∀ s : Status, (update m.status id (some s) id).any statusActive = statusActive s := by
    intro s
    rw [update_same]
    rfl
  unfold taskEvent at hstep
  split at hstep
  · next hphase =>
    rw [← Option.some.inj hstep]
    refine ⟨hkeep .forwarding _ (fun _ => ?_) (fun _ => hsame .connected) (hupdate _), rfl⟩
    rw [Task.live, hphase]
    rfl
  · next hphase =>
    split at hstep
    · rw [← Option.some.inj hstep]
      refine ⟨hkeep .waiting _ (fun _ => ?_) (fun _ => hsame .reconnecting) (hupdate _), rfl⟩
      rw [Task.live, hphase]
      rfl
    · cases hstep
  · next hphase =>
    split at hstep
    · rw [← Option.some.inj hstep]
      refine ⟨hkeep .waiting _ (fun _ => ?_) (fun _ => hsame .reconnecting) (hupdate _), rfl⟩
      rw [Task.live, hphase]
      rfl
    · cases hstep
  · rw [← Option.some.inj hstep]
    exact ⟨hkeep .failed _ (fun hl => by cases hl) (fun hl => by cases hl) (hupdate _), rfl⟩
  · rw [← Option.some.inj hstep]
    exact ⟨hkeep .failed _ (fun hl => by cases hl) (fun hl => by cases hl) (hupdate _), rfl⟩
  · next hphase =>
    rw [← Option.some.inj hstep]
    have hlive : t.live = true := by
      rw [Task.live, hphase]
      rfl
    exact ⟨hkeep .starting m.status (fun _ => hlive) (fun _ => h.status id t ht hlive)
      fun i _ => rfl, rfl⟩
  · rw [← Option.some.inj hstep]
    exact ⟨hkeep .finished m.status (fun hl => by cases hl) (fun hl => by cases hl)
      fun i _ => rfl, rfl⟩
  · cases hstep

/-! ## Starting a task -/

theorem running_of_live {id : Uuid} {t : Task} (ht : m.tasks id = some t)
    (hlive : t.live = true) : m.running id = true := by
  rw [running, ht]
  show decide (t.phase ≠ .finished) = true
  apply decide_eq_true
  intro hphase
  rw [Task.live, hphase] at hlive
  cases hlive

/-- The tunnel with an id. -/
theorem find_tunnel {c : Config} {id : Uuid} {t : Tunnel}
    (h : (c.tunnels.find? fun t => t.id = id) = some t) : t ∈ c.tunnels ∧ t.id = id :=
  ⟨List.mem_of_find?_eq_some h, by simpa using List.find?_some h⟩

theorem find_server {id : Uuid} {s : Server} (h : m.server id = .ok s) :
    s ∈ m.config.servers ∧ s.id = id := by
  rw [server] at h
  split at h
  · next s' hfind =>
    obtain rfl := Except.ok.inj h
    exact ⟨List.mem_of_find?_eq_some hfind, by simpa using List.find?_some hfind⟩
  · cases h

/-- A start does nothing where a task has not ended, and else starts what is saved. -/
theorem connect_ok {id : Uuid} (h : m.connect A id = .ok m') : m' = m ∨
    m.running id = false ∧ ∃ tunnel ∈ m.config.tunnels, tunnel.id = id ∧
      ∃ s ∈ m.config.servers, s.id = tunnel.serverId ∧ m' = { m with
        status := update m.status id (some .connecting)
        tasks := update m.tasks id (some ⟨s, tunnel, .starting⟩) } := by
  rw [connect] at h
  split at h
  · exact .inl (Except.ok.inj h).symm
  · next hrunning =>
    split at h
    · cases h
    · next tunnel hfind =>
      obtain ⟨htunnel, hid⟩ := find_tunnel hfind
      refine .inr ⟨eq_false_of_ne_true hrunning, tunnel, htunnel, hid, ?_⟩
      cases hpairs : tunnel.pairs A with
      | error e =>
        rw [hpairs] at h
        cases h
      | ok requested =>
        cases hserver : m.server tunnel.serverId with
        | error e =>
          rw [hpairs, hserver] at h
          cases h
        | ok s =>
          obtain ⟨hs, hsid⟩ := find_server hserver
          cases hports : m.checkPorts A id requested m.config.tunnels with
          | error e =>
            rw [hpairs, hserver] at h
            simp only [bind, Except.bind, hports] at h
            cases h
          | ok u =>
            rw [hpairs, hserver] at h
            simp only [bind, Except.bind, hports] at h
            exact ⟨s, hs, hsid, (Except.ok.inj h).symm⟩

/-- The ports of a saved tunnel are free where the other tasks run what is saved. -/
theorem Core.connect {id : Uuid} (h : Core A m) (hconnect : m.connect A id = .ok m')
    (hothers : ∀ i t, i ≠ id → m.tasks i = some t → t.live = true → t.tunnel ∈ m.config.tunnels) :
    Core A m' := by
  rcases connect_ok hconnect with rfl | ⟨-, tunnel, htunnel, hid, s, hs, hsid, rfl⟩
  · exact h
  have hfree : ∀ i t, i ≠ id → m.tasks i = some t → t.live = true →
      List.Disjoint tunnel.localPorts t.tunnel.localPorts := by
    intro i t hi ht hlive
    have hne : t.tunnel.id ≠ tunnel.id := by
      rw [h.named i t ht hlive, hid]
      exact hi
    exact Tunnel.localPorts_disjoint
      (h.apart tunnel htunnel t.tunnel (hothers i t hi ht hlive) hne).1
  refine ⟨h.valid, h.apart, fun i t ht hlive => ?_, ?_, fun i t ht hlive => ?_⟩
  · change update m.tasks id _ i = some t at ht
    by_cases hi : i = id
    · subst hi
      rw [update_same] at ht
      obtain rfl := Option.some.inj ht
      exact hid
    · rw [update_other hi] at ht
      exact h.named i t ht hlive
  · intro i j t u hne ht hlive hu hulive
    change update m.tasks id _ i = some t at ht
    change update m.tasks id _ j = some u at hu
    by_cases hi : i = id
    · by_cases hj : j = id
      · exact absurd (hi.trans hj.symm) hne
      · subst hi
        rw [update_same] at ht
        rw [update_other hj] at hu
        obtain rfl := Option.some.inj ht
        exact hfree j u hj hu hulive
    · rw [update_other hi] at ht
      by_cases hj : j = id
      · subst hj
        rw [update_same] at hu
        obtain rfl := Option.some.inj hu
        exact (hfree i t hi ht hlive).symm
      · rw [update_other hj] at hu
        exact h.ports i j t u hne ht hlive hu hulive
  · change update m.tasks id _ i = some t at ht
    show (update m.status id _ i).any statusActive = true
    by_cases hi : i = id
    · subst hi
      rw [update_same]
      rfl
    · rw [update_other hi] at ht ⊢
      exact h.status i t ht hlive

/-- A task that was started runs what is saved. -/
theorem Current.connect {ex : Uuid → Prop} {sx : Uuid → Task → Prop} {id : Uuid}
    (h : Current m ex sx) (hconnect : m.connect A id = .ok m') (hrunning : m.running id = false) :
    Current m' (fun i => ex i ∧ i ≠ id) (fun i t => sx i t ∧ i ≠ id) := by
  rcases connect_ok hconnect with rfl | ⟨-, tunnel, htunnel, hid, s, hs, hsid, rfl⟩
  · have hother : ∀ i t, m'.tasks i = some t → t.live = true → i ≠ id := by
      rintro i t ht hlive rfl
      rw [running_of_live ht hlive] at hrunning
      cases hrunning
    exact ⟨fun i t ht hlive hnot => h.tunnel i t ht hlive fun hx => hnot ⟨hx, hother i t ht hlive⟩,
      fun i t ht hlive hnot => h.server i t ht hlive fun hx => hnot ⟨hx, hother i t ht hlive⟩⟩
  · constructor
    · intro i t ht hlive hnot
      change update m.tasks id _ i = some t at ht
      by_cases hi : i = id
      · subst hi
        rw [update_same] at ht
        obtain rfl := Option.some.inj ht
        exact htunnel
      · rw [update_other hi] at ht
        exact h.tunnel i t ht hlive fun hx => hnot ⟨hx, hi⟩
    · intro i t ht hlive hnot
      change update m.tasks id _ i = some t at ht
      by_cases hi : i = id
      · subst hi
        rw [update_same] at ht
        obtain rfl := Option.some.inj ht
        exact ⟨s, hs, hsid, rfl⟩
      · rw [update_other hi] at ht
        exact h.server i t ht hlive fun hx => hnot ⟨hx, hi⟩

theorem checkPorts_ok {id : Uuid} {tunnel : Tunnel} {requested : List (UInt16 × UInt16)}
    (hpairs : tunnel.pairs A = .ok requested) : ∀ {tunnels : List Tunnel},
    (∀ t ∈ tunnels, ∃ ps, t.pairs A = .ok ps) →
    (∀ t ∈ tunnels, t.id ≠ id → tunnel.Apart A t) →
      m.checkPorts A id requested tunnels = .ok ()
  | [], _, _ => rfl
  | t :: tunnels, hvalid, hapart => by
    have ih := checkPorts_ok hpairs (fun u hu => hvalid u (List.mem_cons_of_mem t hu))
      fun u hu => hapart u (List.mem_cons_of_mem t hu)
    rw [checkPorts]
    split
    · next hother =>
      obtain ⟨ps, hps⟩ := hvalid t List.mem_cons_self
      have hdisjoint := Tunnel.localPorts_disjoint (hapart t List.mem_cons_self hother.1).1
      have hnone : (ps.any fun p => requested.any fun q => p.1 = q.1) = false := by
        rw [List.any_eq_false]
        intro p hp hany
        obtain ⟨q, hq, heq⟩ := List.any_eq_true.mp hany
        have hpmem := List.mem_map_of_mem (f := Prod.fst) hp
        have hqmem := List.mem_map_of_mem (f := Prod.fst) hq
        rw [(Tunnel.pairs_ports hps).1] at hpmem
        rw [(Tunnel.pairs_ports hpairs).1] at hqmem
        rw [of_decide_eq_true heq] at hpmem
        exact hdisjoint hqmem hpmem
      rw [hps]
      show (if _ then _ else _) = _
      rw [hnone]
      exact ih
    · exact ih

/-- A saved tunnel can always be started. -/
theorem connect_saved {id : Uuid} (h : Core A m) (hid : id ∈ m.config.tunnels.map Tunnel.id) :
    ∃ m', m.connect A id = .ok m' := by
  rw [Manager.connect]
  split
  · exact ⟨m, rfl⟩
  · obtain ⟨t, ht, rfl⟩ := List.mem_map.mp hid
    cases hfind : m.config.tunnels.find? fun u => u.id = t.id with
    | none =>
      have hnot := List.find?_eq_none.mp hfind t ht
      simp at hnot
    | some tunnel =>
      obtain ⟨htunnel, htid⟩ := find_tunnel hfind
      obtain ⟨ps, hps⟩ := h.valid.pairs tunnel htunnel
      have hserver : ∃ s, m.server tunnel.serverId = .ok s := by
        obtain ⟨s, hs, hsid⟩ := List.mem_map.mp (h.valid.served tunnel htunnel)
        rw [server]
        cases hfound : m.config.servers.find? fun s => s.id = tunnel.serverId with
        | none =>
          have hnot := List.find?_eq_none.mp hfound s hs
          simp [hsid] at hnot
        | some s' => exact ⟨s', rfl⟩
      obtain ⟨s, hs⟩ := hserver
      have hports : m.checkPorts A t.id ps m.config.tunnels = .ok () := by
        apply checkPorts_ok hps h.valid.pairs
        intro u hu hne
        apply h.apart tunnel htunnel u hu
        rw [htid]
        exact hne
      simp only [hps, hs, bind, Except.bind, hports]
      exact ⟨_, rfl⟩

end Manager

end Porthop.Profile
