import Porthop.Sampling.Kept

/- Every step keeps the invariant. -/
namespace Porthop.Sampling

open Porthop.Profile
open Porthop.Profile.Manager (fields sameConnection_iff update_same update_other)

variable {ρ V δ : Type} {A : Addresses} {s t : Sampler ρ V δ} {j : Job δ} {n : Nat}

/-! ## Jobs -/

/-- A job that rests holds nothing. -/
theorem fits_rest {p : Phase δ} (hclone : p.clone = none) (hlocks : p.locks = false)
    (htraced : p.Traced s.collections j.server j.revision) : Fits s j p := by
  have hguards : p.guards = false := by
    apply eq_false_of_ne_true
    intro hg
    rw [Phase.locks_of_guards hg] at hlocks
    cases hlocks
  refine ⟨fun g hg => ?_, fun hp => ?_, fun hp => ?_, fun hp => ?_, htraced⟩
  · rw [hclone] at hg
    cases hg
  · rw [hlocks] at hp
    cases hp
  · rw [hguards] at hp
    cases hp
  · rw [Phase.guards_of_checked hp] at hguards
    cases hguards

/-- A job that holds what it held. -/
theorem fits_stay {p : Phase δ} (h : JobOk s.manager s.sampling s.collections j)
    (hclone : p.clone = j.phase.clone) (hlocks : p.locks = true → j.phase.locks = true)
    (hguards : p.guards = true → j.phase.guards = true)
    (hchecked : p.checked = true → s.manager.matchesConnection j.server j.revision = true)
    (htraced : p.Traced s.collections j.server j.revision) : Fits s j p where
  entered g hg := h.entered g (hclone ▸ hg)
  locks hp := .inl (hlocks hp)
  guards hp := .inl (hguards hp)
  checked := hchecked
  traced := htraced

theorem Inv.enter (h : Inv s) (hj : s.jobs[n]? = some j) (requested : Nat) :
    Inv (s.enter n requested j.server.id) := by
  rw [Sampler.enter]
  split
  · next gate hgate =>
    refine h.setPhase hj ⟨fun g hg => ?_, nofun, nofun, nofun, trivial⟩
    obtain rfl := Option.some.inj hg
    exact hgate
  · next hnone =>
    let sampling := Manager.update s.sampling j.server.id (some s.gates.length)
    have hsampling : ∀ k ∈ s.jobs, ∀ g, k.phase.clone = some g → sampling k.server.id = some g := by
      intro k hk g hg
      have hold := (h.jobs k hk).entered g hg
      have hne : k.server.id ≠ j.server.id := by
        intro heq
        rw [heq, hnone] at hold
        cases hold
      exact (update_other hne).trans hold
    have hs := (h.setSampling hsampling).setStore (s.gates ++ [none]) s.rows s.recorded
      s.publications
    refine hs.setPhase hj ⟨fun g hg => ?_, nofun, nofun, nofun, trivial⟩
    obtain rfl := Option.some.inj hg
    exact update_same _ _ _

theorem Inv.begin (h : Inv s) {requested gate : Nat} (hj : s.jobs[n]? = some j)
    (hphase : j.phase = .locked requested gate) : Inv (s.begin n gate requested j) := by
  have hok := h.jobs j (List.mem_of_getElem? hj)
  rw [Sampler.begin]
  split
  · exact h.setPhase hj (fits_rest rfl rfl (.inl rfl))
  · split
    · exact h.setPhase hj (fits_stay hok (by rw [hphase]; rfl) (fun _ => by rw [hphase]; rfl) nofun
        nofun trivial)
    · exact h.setPhase hj (fits_stay hok (by rw [hphase]; rfl) (fun _ => by rw [hphase]; rfl) nofun
        nofun trivial)

theorem cache_profile (s : Sampler ρ V δ) (server : Server) (revision : Nat) (o : Outcome δ) :
    (s.cache server revision o).profile = server ∧
      (s.cache server revision o).generation = revision := by
  unfold Sampler.cache
  split
  · split
    · exact ⟨rfl, rfl⟩
    · exact ⟨rfl, rfl⟩
  · exact ⟨rfl, rfl⟩

theorem cache_traced (h : Inv s) {server : Server} {revision : Nat} {o : Outcome δ}
    (ho : Traced s.collections server revision o) :
    Traced s.collections server revision (s.cache server revision o).result := by
  unfold Sampler.cache
  split
  · next e profile generation previous hlatest =>
    split
    · next hmatch =>
      obtain ⟨hsame, hgeneration⟩ := Bool.and_eq_true_iff.mp hmatch
      obtain rfl := of_decide_eq_true hgeneration
      have hentry := h.entries _ _ hlatest
      have htraced : Collected s.collections profile generation (.ok previous.data) := hentry.traced
      exact htraced.transfer hentry.own (sameConnection_iff.mp hsame)
    · exact ho
  · exact ho

/-- What is published is an entry of the connection that is saved. -/
theorem cache_ok (h : Inv s) {server : Server} {revision : Nat} {o : Outcome δ}
    (hmatch : s.manager.matchesConnection server revision = true)
    (ho : Traced s.collections server revision o) :
    EntryOk s.manager s.collections server.id (s.cache server revision o) := by
  obtain ⟨hprofile, hgeneration⟩ := cache_profile s server revision o
  obtain ⟨hrevision, hknown⟩ := matches_iff.mp hmatch
  refine ⟨by rw [hprofile], ?_, fun f hf _ => ?_, ?_⟩
  · rw [hgeneration, hrevision]
  · rw [hprofile]
    exact h.counted.known_unique hf hknown
  · rw [hprofile, hgeneration]
    exact cache_traced h ho

theorem waiter_notify {collections : List (Collection δ)} {w : Waiter δ}
    (h : WaiterOk collections w) : WaiterOk collections w.notify := by
  intro o ho
  rw [Waiter.notify] at ho ⊢
  split at ho
  · cases ho
  · cases ho
  · exact h o ho

theorem Inv.publish (h : Inv s) {server : Server} {revision : Nat} {o : Outcome δ}
    (hmatch : s.manager.matchesConnection server revision = true)
    (ho : Traced s.collections server revision o) : Inv (s.publish server revision o) := by
  have hlatest : ∀ id c, Manager.update s.latest server.id (some (s.cache server revision o)) id =
      some c → EntryOk s.manager s.collections id c := by
    intro id c hc
    by_cases hid : id = server.id
    · subst hid
      rw [update_same] at hc
      obtain rfl := Option.some.inj hc
      exact cache_ok h hmatch ho
    · rw [update_other hid] at hc
      exact h.entries id c hc
  have hwaiters : ∀ w ∈ s.waiters.map Waiter.notify, WaiterOk s.collections w := by
    intro w hw
    obtain ⟨w, hmem, rfl⟩ := List.mem_map.mp hw
    exact waiter_notify (h.waiters w hmem)
  exact ((h.setLatest hlatest).setWaiters hwaiters).setStore s.gates s.rows s.recorded _

theorem Inv.proceed (h : Inv s) (hj : s.jobs[n]? = some j) (hstep : s.proceed n j = some t) :
    Inv t := by
  have hmem := List.mem_of_getElem? hj
  have hok := h.jobs j hmem
  have htraced := hok.traced
  rw [Sampler.proceed] at hstep
  split at hstep
  · next requested hphase =>
    cases hstep
    exact h.enter hj requested
  · next requested gate hphase =>
    split at hstep
    · next hfree =>
      cases hstep
      have hclone : j.phase.clone = some gate := by rw [hphase]; rfl
      exact h.setPhase hj ⟨fun g hg => hok.entered g (hclone.trans hg),
        fun _ => .inr (not_locked h hmem hclone hfree), nofun, nofun, trivial⟩
    · cases hstep
  · next requested gate hphase =>
    cases hstep
    exact h.begin hj hphase
  · next gate hphase =>
    split at hstep
    · next result hshared =>
      cases hstep
      exact h.setPhase hj (fits_rest rfl rfl (.inr (traced_shared h hshared)))
    · cases hstep
      exact h.setPhase hj (fits_stay hok (by rw [hphase]; rfl) (fun _ => by rw [hphase]; rfl) nofun
        nofun trivial)
  · next gate started sampledAt result hphase =>
    split at hstep
    · next hfree =>
      cases hstep
      rw [hphase] at htraced
      exact h.setPhase hj ⟨fun g hg => hok.entered g (by rw [hphase]; exact hg),
        fun _ => .inl (by rw [hphase]; rfl), fun _ => .inr hfree, nofun, htraced⟩
    · cases hstep
  · next gate result hphase =>
    cases hstep
    rw [hphase] at htraced
    have hmatch := hok.checked (by rw [hphase]; rfl)
    exact (h.publish hmatch htraced).setPhase hj ⟨fun g hg => hok.entered g (by rw [hphase]; exact hg),
      fun _ => .inl (by rw [hphase]; rfl), fun _ => .inl (by rw [hphase]; rfl), fun _ => hmatch,
      htraced⟩
  · next gate result hphase =>
    cases hstep
    rw [hphase] at htraced
    have hs := h.setStore (s.gates.set gate (some s.manager.now)) s.rows s.recorded s.publications
    exact hs.setPhase hj (fits_rest rfl rfl (.inr htraced))
  · cases hstep

/-- Under the barrier the connection is looked at again. -/
theorem Inv.check (h : Inv s) {gate started sampledAt : Nat} {result : Except String δ}
    (hj : s.jobs[n]? = some j) (hphase : j.phase = .guarded gate started sampledAt result)
    (wall : Nat) : Inv (s.check n gate started sampledAt wall j result) := by
  have hok := h.jobs j (List.mem_of_getElem? hj)
  have htraced := hok.traced
  rw [hphase] at htraced
  unfold Sampler.check
  split
  · exact h.setPhase hj (fits_rest rfl rfl (.inl rfl))
  · next hmatch =>
    rw [Bool.not_eq_true', Bool.not_eq_false] at hmatch
    split
    · exact h.setPhase hj (fits_stay hok (by rw [hphase]; rfl) (fun _ => by rw [hphase]; rfl)
        (fun _ => by rw [hphase]; rfl) (fun _ => hmatch) htraced)
    · have hsame := same_observe s.manager j.revision ⟨j.server, started, s.manager.now, wall, .ok ()⟩
      have hs := h.setManager (hsame.follows h.counted) (.inl hsame)
      have hok := hs.jobs j (List.mem_of_getElem? hj)
      refine hs.setPhase hj (fits_stay hok (by rw [hphase]; rfl) (fun _ => by rw [hphase]; rfl)
        (fun _ => by rw [hphase]; rfl) (fun _ => ?_) htraced)
      exact (hsame.matches _ _).trans hmatch

theorem Inv.record (h : Inv s) {gate sampledAt : Nat} {data : δ} (hj : s.jobs[n]? = some j)
    (hphase : j.phase = .recording gate sampledAt data) (result : Except String Unit) :
    Inv (s.record n gate sampledAt j data result) := by
  have hok := h.jobs j (List.mem_of_getElem? hj)
  have htraced := hok.traced
  have hmatch := hok.checked (by rw [hphase]; rfl)
  rw [hphase] at htraced
  cases result with
  | ok =>
    have hs := h.setStore s.gates (s.rows ++ [⟨j.server, j.revision, sampledAt, data⟩])
      (s.recorded ++ [⟨j.server, j.revision, sampledAt, data⟩]) s.publications
    exact hs.setPhase hj (fits_stay hok (by rw [hphase]; rfl) (fun _ => by rw [hphase]; rfl)
      (fun _ => by rw [hphase]; rfl) (fun _ => hmatch) htraced)
  | error e =>
    exact h.setPhase hj (fits_stay hok (by rw [hphase]; rfl) (fun _ => by rw [hphase]; rfl)
      (fun _ => by rw [hphase]; rfl) (fun _ => hmatch) htraced)

theorem Inv.tick (h : Inv s) (hj : s.jobs[n]? = some j) (hstep : s.tick n j = some t) : Inv t := by
  have hmove : ∀ m, (if s.manager.matchesConnection j.server j.revision then
      some (s.setPhase n (.called m)) else some (s.setPhase n .finished)) = some t → Inv t := by
    intro m hm
    split at hm
    · cases hm
      exact h.setPhase hj (fits_rest rfl rfl trivial)
    · cases hm
      exact h.setPhase hj (fits_rest rfl rfl trivial)
  rw [Sampler.tick] at hstep
  split at hstep
  · exact hmove _ hstep
  · exact hmove _ hstep
  · cases hstep

/-! ## The reconciliation -/

theorem retainJob_same (servers : List (Server × Nat)) (j : Job δ) :
    (Sampler.retainJob servers j).phase = j.phase ∧ (Sampler.retainJob servers j).server = j.server ∧
      (Sampler.retainJob servers j).revision = j.revision := by
  rw [Sampler.retainJob]
  split
  · split
    · exact ⟨rfl, rfl, rfl⟩
    · exact ⟨rfl, rfl, rfl⟩
  · exact ⟨rfl, rfl, rfl⟩

/-- The reconciliation sees the connections that are saved. -/
theorem current_servers {server : Server} {revision : Nat} :
    Sampler.current s.servers server.id server revision =
      s.manager.matchesConnection server revision := by
  apply Bool.eq_iff_iff.mpr
  rw [matches_iff]
  simp only [Sampler.current, Sampler.servers, List.any_map, List.any_eq_true, Function.comp_apply,
    Bool.and_eq_true, decide_eq_true_eq, sameConnection_iff, known, List.mem_map, Prod.mk.injEq]
  constructor
  · rintro ⟨other, hmem, ⟨hid, hfields⟩, hrevision⟩
    rw [hid] at hrevision
    exact ⟨hrevision.symm, other, hmem, hid, hfields.symm⟩
  · rintro ⟨hrevision, other, hmem, hid, hfields⟩
    refine ⟨other, hmem, ⟨hid, hfields.symm⟩, ?_⟩
    rw [hid]
    exact hrevision.symm

theorem Inv.retainJobs (h : Inv s) :
    Inv { s with jobs := s.jobs.map (Sampler.retainJob s.servers) } := by
  have hsame := retainJob_same (δ := δ) s.servers
  refine ⟨h.counted, fun j hj => ?_, h.locks.map (fun j => (hsame j).1) ?_,
    h.guards.map (fun j => (hsame j).1) (fun _ _ _ => trivial), fun hcommand j hj => ?_, h.seen,
    h.entries, h.waiters⟩
  · obtain ⟨k, hk, rfl⟩ := List.mem_map.mp hj
    obtain ⟨hphase, hserver, hrevision⟩ := hsame k
    have hok := h.jobs k hk
    refine ⟨?_, ?_, ?_, fun hstopped => ?_, ?_⟩
    · rw [hphase, hserver]
      exact hok.entered
    · rw [hserver, hrevision]
      exact hok.past
    · rw [hphase, hserver, hrevision]
      exact hok.checked
    · rw [hserver, hrevision]
      rw [Sampler.retainJob] at hstopped
      split at hstopped
      · split at hstopped
        · exact hok.stopped hstopped
        · next hgone =>
          rw [current_servers] at hgone
          exact eq_false_of_ne_true hgone
      · exact hok.stopped hstopped
    · rw [hphase, hserver, hrevision]
      exact hok.traced
  · intro a b hab
    rw [oneServer, (hsame a).2.1, (hsame b).2.1] at hab
    exact hab
  · obtain ⟨k, hk, rfl⟩ := List.mem_map.mp hj
    rw [(hsame k).1]
    exact h.barrier hcommand k hk

theorem spawn_append (jobs : List (Job δ)) (servers : List (Server × Nat)) :
    ∃ new, Sampler.spawn jobs servers = jobs ++ new ∧
      ∀ j ∈ new, j.phase = .idle ∧ j.stopped = false ∧ (j.server, j.revision) ∈ servers := by
  induction servers generalizing jobs with
  | nil => exact ⟨[], (List.append_nil jobs).symm, fun j hj => absurd hj List.not_mem_nil⟩
  | cons p servers ih =>
    rw [Sampler.spawn]
    split
    · obtain ⟨new, heq, hnew⟩ := ih jobs
      refine ⟨new, heq, fun j hj => ?_⟩
      obtain ⟨hphase, hstopped, hmem⟩ := hnew j hj
      exact ⟨hphase, hstopped, List.mem_cons_of_mem _ hmem⟩
    · obtain ⟨new, heq, hnew⟩ := ih (jobs ++ [⟨p.1, p.2, true, true, false, .idle⟩])
      refine ⟨⟨p.1, p.2, true, true, false, .idle⟩ :: new, ?_, fun j hj => ?_⟩
      · rw [heq, List.append_assoc]
        rfl
      · rcases List.mem_cons.mp hj with rfl | hj
        · exact ⟨rfl, rfl, List.mem_cons_self⟩
        · obtain ⟨hphase, hstopped, hmem⟩ := hnew j hj
          exact ⟨hphase, hstopped, List.mem_cons_of_mem _ hmem⟩

theorem Inv.reconciled (h : Inv s) : Inv s.reconciled := by
  rw [Sampler.reconciled]
  split
  · refine h.retainJobs.setReconcile fun p hp => ?_
    obtain ⟨server, -, rfl⟩ := List.mem_map.mp hp
    exact le_refl _
  · next servers hreconcile =>
    have hseen := h.seen
    rw [Sampler.seen, hreconcile] at hseen
    have hlatest : ∀ id c, s.retainLatest servers id = some c →
        EntryOk s.manager s.collections id c := by
      intro id c hc
      obtain ⟨e, he, hkept⟩ := Option.bind_eq_some_iff.mp hc
      split at hkept
      · cases hkept
        exact h.entries id c he
      · cases hkept
    exact (h.setLatest hlatest).setReconcile hseen
  · next servers hreconcile =>
    have hseen := h.seen
    rw [Sampler.seen, hreconcile] at hseen
    have hsampling : ∀ j ∈ s.jobs, ∀ g, j.phase.clone = some g →
        s.retainGates servers j.server.id = some g := by
      intro j hj g hg
      have hany : (s.jobs.any fun k => k.phase.clone = some g) = true :=
        List.any_eq_true.mpr ⟨j, hj, decide_eq_true hg⟩
      rw [Sampler.retainGates, (h.jobs j hj).entered g hg, Option.bind_some, hany, Bool.or_true,
        if_pos rfl]
    obtain ⟨new, heq, hnew⟩ := spawn_append s.jobs servers
    rw [heq]
    have hs : Inv { s with sampling := s.retainGates servers, jobs := s.jobs ++ new } := by
      refine (h.setSampling hsampling).append fun j hj => ?_
      obtain ⟨hphase, hstopped, hmem⟩ := hnew j hj
      rw [hphase]
      exact ⟨rfl, rfl, hstopped, hseen _ hmem, trivial⟩
    exact hs.setReconcile nofun

/-! ## Commands -/

/-- What a command does to the profile. -/
theorem commanded_manager (hm : Counted s.manager) (result : Except String Unit) (c : Command) :
    Follows s.manager (s.commanded A result c).manager := by
  have hsame := (Same.refl s.manager).follows hm
  cases c with
  | saveServer server password =>
    show Follows _ (s.manager.orElse (s.manager.saveServer A server password result))
    cases hsave : s.manager.saveServer A server password result with
    | error e => exact hsame
    | ok m => exact (follows_save hm hsave).1
  | deleteServer id =>
    simp only [Sampler.commanded]
    split
    · next m hdelete => exact (follows_delete hm hdelete).1
    · exact hsame
  | cleanUp | clearRows =>
    cases result with
    | ok => exact hsame
    | error => exact hsame
  | clearCache | leave => exact hsame

theorem Inv.commanded (h : Inv s) {c : Command} (hcommand : s.command = some c)
    (result : Except String Unit) : Inv (s.commanded A result c) := by
  have hfree := h.barrier (by rw [hcommand]; rfl)
  have hfollows := commanded_manager (A := A) h.counted result c
  cases c with
  | saveServer server password => exact (h.setManager hfollows (.inr hfree)).setCommand fun _ => hfree
  | deleteServer id =>
    simp only [Sampler.commanded] at hfollows ⊢
    split
    · next m hdelete =>
      rw [hdelete] at hfollows
      exact (h.setManager hfollows (.inr hfree)).setCommand fun _ => hfree
    · exact h.setCommand fun _ => hfree
  | cleanUp id =>
    cases result with
    | ok =>
      have hs := h.setStore s.gates (s.rows.filter fun r => r.server.id ≠ id) s.recorded
        s.publications
      exact hs.setCommand fun _ => hfree
    | error => exact h.setCommand fun _ => hfree
  | clearRows =>
    cases result with
    | ok => exact (h.setStore s.gates [] s.recorded s.publications).setCommand fun _ => hfree
    | error => exact h.setCommand fun _ => hfree
  | clearCache =>
    have hs : Inv { s with latest := fun _ => none } := h.setLatest fun _ _ hc => by cases hc
    exact hs.setCommand fun _ => hfree
  | leave => exact h.setCommand nofun

/-! ## First readings -/

theorem lookup_past {id : Uuid} {p : Server × Nat} (h : s.lookup id = some p) :
    p.1.id = id ∧ p.2 = s.manager.connectionRevision p.1.id := by
  obtain ⟨server, hfind, rfl⟩ := Option.map_eq_some_iff.mp h
  have hid : server.id = id := by simpa using List.find?_some hfind
  exact ⟨hid, by rw [hid]⟩

theorem Inv.setWait (h : Inv s) {k : Nat} {w : Waiter δ} (hw : s.waiters[k]? = some w)
    {wait : Wait δ} (hwait : WaiterOk s.collections { w with wait := wait }) :
    Inv (s.setWait k wait) := by
  refine h.setWaiters fun w' hw' => ?_
  obtain ⟨i, hi⟩ := List.mem_iff_getElem?.mp hw'
  rw [List.getElem?_modify] at hi
  obtain ⟨old, hold, rfl⟩ := Option.map_eq_some_iff.mp hi
  by_cases hik : k = i
  · subst hik
    obtain rfl := Option.some.inj (hold.symm.trans hw)
    rw [if_pos rfl]
    exact hwait
  · rw [if_neg hik]
    exact h.waiters old (List.mem_of_getElem? hold)

theorem Inv.look (h : Inv s) {k : Nat} {w : Waiter δ} (hw : s.waiters[k]? = some w)
    (hstep : s.look k w = some t) : Inv t := by
  rw [Sampler.look] at hstep
  split at hstep
  · split at hstep
    · next result hshared =>
      cases hstep
      refine h.setWait hw fun o ho => .inr ?_
      obtain rfl := Wait.returned.inj ho
      exact traced_shared h hshared
    · cases hstep
      exact h.setWait hw nofun
  · cases hstep

theorem Inv.wake (h : Inv s) {k : Nat} {w : Waiter δ} (hw : s.waiters[k]? = some w)
    (hstep : s.wake k w = some t) : Inv t := by
  rw [Sampler.wake] at hstep
  split at hstep
  · cases hstep
    exact h.setWait hw nofun
  · cases hstep

theorem Inv.timeout (h : Inv s) {k : Nat} {w : Waiter δ} (hw : s.waiters[k]? = some w)
    (hstep : s.timeout k w = some t) : Inv t := by
  rw [Sampler.timeout] at hstep
  split at hstep
  · cases hstep
  · cases hstep
    exact h.setWait hw fun o ho => .inl (Wait.returned.inj ho).symm

/-! ## Every step -/

variable [DecidableEq V] {toValue : Content ρ → V}

theorem Inv.step (h : Inv s) {e : Event ρ δ} (hstep : s.step A toValue e = some t) : Inv t := by
  cases e with
  | manager e =>
    simp only [Sampler.step] at hstep
    split at hstep
    · cases hstep
    · next hedits =>
      obtain ⟨m, hm, rfl⟩ := Option.map_eq_some_iff.mp hstep
      have hsame := same_step (eq_false_of_ne_true hedits) hm
      exact h.setManager (hsame.follows h.counted) (.inl hsame)
  | begin c =>
    simp only [Sampler.step] at hstep
    split at hstep
    · next hfree =>
      cases hstep
      exact h.setCommand fun _ => (not_guarded (Bool.and_eq_true_iff.mp hfree).2).2
    · cases hstep
  | command result =>
    obtain ⟨c, hc, rfl⟩ := Option.map_eq_some_iff.mp hstep
    exact h.commanded hc result
  | reconcile =>
    cases hstep
    exact h.reconciled
  | worker n =>
    obtain ⟨j, hj, hstep⟩ := Option.bind_eq_some_iff.mp hstep
    exact h.tick hj hstep
  | abort n =>
    obtain ⟨j, hj, hstep⟩ := Option.bind_eq_some_iff.mp hstep
    split at hstep
    · cases hstep
      exact h.setPhase hj (fits_rest rfl rfl trivial)
    · cases hstep
  | sample id =>
    obtain ⟨p, hp, rfl⟩ := Option.map_eq_some_iff.mp hstep
    refine h.append fun j hj => ?_
    obtain rfl := List.mem_singleton.mp hj
    exact ⟨rfl, rfl, rfl, le_of_eq (lookup_past hp).2, trivial⟩
  | proceed n =>
    obtain ⟨j, hj, hstep⟩ := Option.bind_eq_some_iff.mp hstep
    exact h.proceed hj hstep
  | collected n result sampledAt =>
    obtain ⟨j, hj, hstep⟩ := Option.bind_eq_some_iff.mp hstep
    split at hstep
    · next gate started hphase =>
      cases hstep
      have hs := h.collect ⟨j.server, j.revision, result⟩
      have hok := hs.jobs j (List.mem_of_getElem? hj)
      refine hs.setPhase hj (fits_stay hok (by rw [hphase]; rfl) (fun _ => by rw [hphase]; rfl) nofun
        nofun ?_)
      exact ⟨_, List.mem_append_right _ List.mem_cons_self, rfl, rfl, rfl, rfl⟩
    · cases hstep
  | check n wall =>
    obtain ⟨j, hj, hstep⟩ := Option.bind_eq_some_iff.mp hstep
    split at hstep
    · next gate started sampledAt result hphase =>
      cases hstep
      exact h.check hj hphase wall
    · cases hstep
  | record n result =>
    obtain ⟨j, hj, hstep⟩ := Option.bind_eq_some_iff.mp hstep
    split at hstep
    · next gate sampledAt data hphase =>
      cases hstep
      exact h.record hj hphase result
    · cases hstep
  | firstReading id =>
    obtain ⟨p, -, rfl⟩ := Option.map_eq_some_iff.mp hstep
    refine h.setWaiters fun w hw => ?_
    rcases List.mem_append.mp hw with hw | hw
    · exact h.waiters w hw
    · obtain rfl := List.mem_singleton.mp hw
      exact nofun
  | look k =>
    obtain ⟨w, hw, hstep⟩ := Option.bind_eq_some_iff.mp hstep
    exact h.look hw hstep
  | wake k =>
    obtain ⟨w, hw, hstep⟩ := Option.bind_eq_some_iff.mp hstep
    exact h.wake hw hstep
  | timeout k =>
    obtain ⟨w, hw, hstep⟩ := Option.bind_eq_some_iff.mp hstep
    exact h.timeout hw hstep

end Porthop.Sampling
