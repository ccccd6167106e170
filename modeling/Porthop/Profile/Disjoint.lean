import Porthop.Profile.Commands

/- What every run of the manager keeps: saved and running tunnels use ports of their own, and
   between two commands the tasks run what is saved. -/
namespace Porthop.Profile

open Porthop.Run

namespace Config

variable {A : Addresses} {c : Config}

/-- The ports of the saved tunnels. -/
structure Ports (A : Addresses) (c : Config) : Prop where
  locals : c.tunnels.Pairwise fun t other => List.Disjoint t.localPorts other.localPorts
  remotes : c.tunnels.Pairwise fun t other => t.serverId = other.serverId →
    forwardingHost A t.remoteHost = forwardingHost A other.remoteHost →
      List.Disjoint t.remotePorts other.remotePorts
  pairs : ∀ t ∈ c.tunnels, ∃ ps, t.pairs A = .ok ps ∧ 1 ≤ ps.length ∧ ps.length ≤ 256 ∧
    (ps.map Prod.fst).Nodup ∧
    -- The ports as numbers: no range wraps at 65535.
    ps.map (fun p => p.1.toNat) = List.range' t.localPort.toNat ps.length ∧
    ps.map (fun p => p.2.toNat) = List.range' t.remotePort.toNat ps.length

theorem pairwise_apart (hvalid : c.Valid A) (hapart : c.Apart A) :
    c.tunnels.Pairwise fun t other => t.Apart A other := by
  have hids := List.pairwise_map.mp hvalid.tunnelIds
  apply List.Pairwise.imp_of_mem _ hids
  intro t other ht hother hne
  exact hapart t ht other hother (Ne.symm hne)

theorem ports_of_valid (hvalid : c.Valid A) (hapart : c.Apart A) : c.Ports A where
  locals := (pairwise_apart hvalid hapart).imp fun h => Tunnel.localPorts_disjoint h.1
  remotes := (pairwise_apart hvalid hapart).imp fun h => Tunnel.remotePorts_disjoint h.2
  pairs t ht := by
    obtain ⟨ps, hps⟩ := hvalid.pairs t ht
    obtain ⟨hlocal, hremote, hlen, hone, hmany⟩ := Tunnel.pairs_ports hps
    have hsized := (Tunnel.pairs_ok hps).1
    refine ⟨ps, hps, hone, hmany, ?_, ?_, ?_⟩
    · rw [hlocal]
      exact nodup_portRange _ _
    · calc ps.map (fun p => p.1.toNat)
          = (ps.map Prod.fst).map UInt16.toNat := by
            rw [List.map_map]
            rfl
        _ = List.range' t.localPort.toNat ps.length := by
          rw [hlocal, hlen]
          exact toNat_portRange _ _
    · have hcount : ps.length = t.remoteEnd.toNat + 1 - t.remotePort.toNat := by
        have hsame := hsized.same
        have hl := hsized.localRange.2
        have hr := hsized.remoteRange.2
        omega
      calc ps.map (fun p => p.2.toNat)
          = (ps.map Prod.snd).map UInt16.toNat := by
            rw [List.map_map]
            rfl
        _ = List.range' t.remotePort.toNat ps.length := by
          rw [hremote, hcount]
          exact toNat_portRange _ _

end Config

namespace Manager

variable {A : Addresses} {m m' : Manager}

/-! ## Commands that fail before they have saved -/

/-- What tasks do by themselves, in turn. -/
def taskEvents (ts : List (Uuid × TaskEvent)) : List Event := ts.map fun p => .task p.1 p.2

/-- The same configuration is saved, and the same runs. -/
def Alike (m m' : Manager) : Prop :=
  m'.config = m.config ∧ m'.loadError = m.loadError ∧ m'.tasks = m.tasks ∧ m'.status = m.status

/-- The start of a command that waits for the store, or that is answered with an error. -/
theorem begin_alike {c : Command} (h : m.begin A c = m')
    (hend : (∃ config next, m'.work = some (.saving config next)) ∨ ∃ e, m'.answer = some (.error e)) :
    Alike m m' := by
  have hsave : ∀ config next, Alike m (m.save A config next) := by
    intro config next
    rw [save]
    split
    · exact ⟨rfl, rfl, rfl, rfl⟩
    · split
      · exact ⟨rfl, rfl, rfl, rfl⟩
      · exact ⟨rfl, rfl, rfl, rfl⟩
  subst h
  cases c with
  | saveServer server password =>
    rw [begin, saveServer]
    split
    · exact ⟨rfl, rfl, rfl, rfl⟩
    · exact hsave _ _
  | deleteServer id =>
    rw [begin, deleteServer]
    split
    · exact ⟨rfl, rfl, rfl, rfl⟩
    · exact hsave _ _
  | saveTunnel tunnel =>
    rw [begin, saveTunnel]
    split
    · exact ⟨rfl, rfl, rfl, rfl⟩
    · exact hsave _ _
  | deleteTunnel id => exact hsave _ _
  | setTunnelConnected id connected =>
    rw [begin] at hend ⊢
    split at hend
    · split at hend
      · split
        · exact ⟨rfl, rfl, rfl, rfl⟩
        · exact ⟨rfl, rfl, rfl, rfl⟩
      · rcases hend with ⟨config, next, h⟩ | ⟨e, h⟩
        · cases h
        · cases h
    · next hconnected =>
      rw [if_neg hconnected]
      exact ⟨rfl, rfl, rfl, rfl⟩

/-- A task does not see the command in progress. -/
theorem taskEvent_still {w : Option Work} {r : Option (Except String Unit)} {id : Uuid} {t : Task}
    {e : TaskEvent} : taskEvent { m with work := w, answer := r } id t e =
      (m.taskEvent id t e).map fun m' => { m' with work := w, answer := r } := by
  unfold taskEvent
  split
  · rfl
  · split
    · rfl
    · rfl
  · split
    · rfl
    · rfl
  · rfl
  · rfl
  · rfl
  · rfl
  · rfl

/-- Tasks go on beside a command as they do without it. -/
theorem exec_taskEvents {ts : List (Uuid × TaskEvent)} {w : Option Work}
    {r : Option (Except String Unit)} : exec (step A) (taskEvents ts) { m with work := w, answer := r } =
      (exec (step A) (taskEvents ts) m).map fun m' => { m' with work := w, answer := r } := by
  induction ts generalizing m with
  | nil => rfl
  | cons p ts ih =>
    have hstep : step A { m with work := w, answer := r } (.task p.1 p.2) =
        (step A m (.task p.1 p.2)).map fun m' => { m' with work := w, answer := r } := by
      show ((m.tasks p.1).bind fun t => taskEvent { m with work := w, answer := r } p.1 t p.2) =
        ((m.tasks p.1).bind fun t => m.taskEvent p.1 t p.2).map _
      rw [Option.map_bind]
      congr 1
      funext t
      exact taskEvent_still
    show (step A _ (.task p.1 p.2)).bind _ = ((step A m (.task p.1 p.2)).bind _).map _
    rw [hstep]
    cases step A m (.task p.1 p.2) with
    | none => rfl
    | some m₁ => exact ih

theorem Alike.eq (h : Alike m m') : m' = { m with work := m'.work, answer := m'.answer } := by
  obtain ⟨hconfig, hload, htasks, hstatus⟩ := h
  cases m
  cases m'
  simp only at hconfig hload htasks hstatus
  rw [hconfig, hload, htasks, hstatus]

theorem taskEvent_config {id : Uuid} {t : Task} {e : TaskEvent}
    (h : m.taskEvent id t e = some m') : m'.config = m.config := by
  unfold taskEvent at h
  split at h
  · rw [← Option.some.inj h]
  · split at h
    · rw [← Option.some.inj h]
    · cases h
  · split at h
    · rw [← Option.some.inj h]
    · cases h
  · rw [← Option.some.inj h]
  · rw [← Option.some.inj h]
  · rw [← Option.some.inj h]
  · rw [← Option.some.inj h]
  · cases h

theorem taskEvents_config {ts : List (Uuid × TaskEvent)}
    (h : exec (step A) (taskEvents ts) m = some m') : m'.config = m.config := by
  induction ts generalizing m with
  | nil =>
    obtain rfl : m = m' := by simpa [taskEvents] using h
    rfl
  | cons p ts ih =>
    obtain ⟨m₁, hm₁, h⟩ := exec_cons.mp h
    obtain ⟨t, -, hevent⟩ := Option.bind_eq_some_iff.mp hm₁
    exact (ih h).trans (taskEvent_config hevent)

theorem step_begin {c : Command} (h : step A m (.begin c) = some m') : m' = m.begin A c := by
  unfold step at h
  cases hwork : m.work with
  | none =>
    rw [hwork] at h
    exact (Option.some.inj h).symm
  | some w =>
    rw [hwork] at h
    cases w <;> cases h

theorem step_storedError {e : String} (h : step A m (.stored (.error e)) = some m') :
    (∃ config next, m.work = some (.saving config next)) ∧ m' = m.finish (.error e) := by
  unfold step at h
  cases hwork : m.work with
  | none =>
    rw [hwork] at h
    cases h
  | some w =>
    rw [hwork] at h
    cases w with
    | saving config next => exact ⟨⟨config, next, rfl⟩, (Option.some.inj h).symm⟩
    | _ => cases h

/-- A command that could not save leaves what its tasks alone would have left. -/
theorem failed_save {c : Command} {ts : List (Uuid × TaskEvent)} {e : String}
    (hrun : exec (step A) (.begin c :: (taskEvents ts ++ [.stored (.error e)])) m = some m') :
    ∃ alone, exec (step A) (taskEvents ts) m = some alone ∧ alone.config = m.config ∧
      Alike alone m' := by
  obtain ⟨m₁, hbegin, hrun⟩ := exec_cons.mp hrun
  rw [exec_append] at hrun
  obtain ⟨m₂, hevents, hrun⟩ := Option.bind_eq_some_iff.mp hrun
  obtain ⟨m₃, hstored, hend⟩ := exec_cons.mp hrun
  obtain rfl : m₃ = m' := by simpa using hend
  obtain ⟨⟨config, next, hwork₂⟩, rfl⟩ := step_storedError hstored
  -- The tasks leave the wait of the command as it was, so it has waited since it began.
  have hwork₁ : m₁.work = some (.saving config next) := by
    have hkept := @exec_taskEvents A m₁ ts m₁.work m₁.answer
    change exec (step A) (taskEvents ts) m₁ = _ at hkept
    rw [hevents] at hkept
    have hsame := congrArg Manager.work (Option.some.inj hkept)
    exact hsame.symm.trans hwork₂
  have halike := begin_alike (step_begin hbegin).symm (.inl ⟨config, next, hwork₁⟩)
  rw [halike.eq, exec_taskEvents] at hevents
  obtain ⟨alone, halone, rfl⟩ := Option.map_eq_some_iff.mp hevents
  exact ⟨alone, halone, taskEvents_config halone, rfl, rfl, rfl, rfl⟩

/-! ## Every run -/

/-- Every task that runs belongs to a saved tunnel, and runs with what is saved of it and of its
    server. -/
def RunsSaved (m : Manager) : Prop :=
  ∀ id t, m.tasks id = some t → t.live = true → t.tunnel ∈ m.config.tunnels ∧ t.tunnel.id = id ∧
    ∃ s ∈ m.config.servers, s.id = t.tunnel.serverId ∧ s.sameConnection t.server = true

theorem Inv.runsSaved (h : Inv A m) (hidle : m.work = none) : RunsSaved m := by
  intro id t ht hlive
  have hcurrent := h.current
  rw [hidle] at hcurrent
  obtain ⟨s, hs, hsid, hfields⟩ := hcurrent.server id t ht hlive not_false
  exact ⟨hcurrent.tunnel id t ht hlive not_false, h.core.named id t ht hlive,
    s, hs, hsid, sameConnection_iff.mpr hfields⟩

/-- **Saved and running tunnels stay disjoint and current.** Where what is stored has no two
    tunnels on one port, no state of any run has; between two commands the tasks run what is
    saved, and a command that fails before it has saved changes nothing. -/
theorem tunnels_apart (A : Addresses) (stored : Except String Config)
    (hstored : ∀ c, stored = .ok c → c.Apart A) (es : List Event) (m : Manager)
    (hrun : exec (step A) es (new A stored) = some m) :
    m.config.Ports A ∧
    (∀ id id' t t', id ≠ id' → m.tasks id = some t → t.live = true → m.tasks id' = some t' →
      t'.live = true → List.Disjoint t.tunnel.localPorts t'.tunnel.localPorts) ∧
    (m.work = none → RunsSaved m) ∧
    (∀ c m' e, step A m (.begin c) = some m' → m'.work = none → m'.answer = some (.error e) →
      Alike m m') ∧
    ∀ c ts e m', exec (step A) (.begin c :: (taskEvents ts ++ [.stored (.error e)])) m = some m' →
      ∃ alone, exec (step A) (taskEvents ts) m = some alone ∧ alone.config = m.config ∧
        Alike alone m' := by
  have hinv : Inv A m := exec_invariant (fun _ _ _ h hstep => inv_step h hstep) (inv_new hstored) hrun
  refine ⟨Config.ports_of_valid hinv.core.valid hinv.core.apart, hinv.core.ports,
    hinv.runsSaved, ?_, ?_⟩
  · intro c m' e hbegin _ hanswer
    exact begin_alike (step_begin hbegin).symm (.inr ⟨e, hanswer⟩)
  · intro c ts e m' hfailed
    exact failed_save hfailed

/-- A tunnel of two ports that is started, and started again for another user of its server. -/
theorem renamedUser_apart :
    let A : Addresses := ⟨fun _ => false, fun _ => none⟩
    let server : Server := ⟨1, "", "a", "h", 22, none, none, none, .publicKey, false, false⟩
    let tunnel : Tunnel := ⟨2, "", 1, 65534, some 65535, "h", 80, some 81, true, true⟩
    let user : Server := { server with sshUser := "b" }
    let es : List Event := [.begin (.saveServer server none), .stored (.ok ()),
      .begin (.saveTunnel tunnel), .stored (.ok ()), .begin (.setTunnelConnected 2 true),
      .task 2 .connected, .begin (.saveServer user none), .stored (.ok ()), .task 2 .retried,
      .closed, .stopped, .done (.ok ())]
    ∃ m, exec (step A) es (new A (.ok ⟨[], []⟩)) = some m ∧
      (m.tasks 2).any (fun t => t.live && t.server.sshUser = "b") = true ∧
      m.config.Ports A ∧ RunsSaved m := by
  intro A server tunnel user es
  have hempty : Config.Apart A ⟨[], []⟩ := fun t ht => absurd ht List.not_mem_nil
  have hsome : (exec (step A) es (new A (.ok ⟨[], []⟩))).any (fun m => m.work.isNone &&
      (m.tasks 2).any fun t => t.live && t.server.sshUser = "b") = true := by decide
  obtain ⟨m, hrun, hm⟩ := (Option.any_eq_true _ _).mp hsome
  obtain ⟨hidle, hrenamed⟩ := Bool.and_eq_true_iff.mp hm
  have hkept := tunnels_apart A (.ok ⟨[], []⟩)
    (fun c hc => Except.ok.inj hc ▸ hempty) es m hrun
  exact ⟨m, hrun, hrenamed, hkept.1, hkept.2.2.1 (Option.isNone_iff_eq_none.mp hidle)⟩

end Manager

end Porthop.Profile
