import Porthop.Sampling.Edited

/- What every run of the sampler keeps.

   Every job that has a clone has the one gate of its server, and at most one of them its lock.
   No two jobs hold the barrier, nor a job and a command, so the connection that was looked at
   under the barrier is still the one that is saved when its reading is stored. -/
namespace Porthop.Sampling

open Porthop.Profile
open Porthop.Profile.Manager (fields sameConnection_iff update_same update_other)

variable {ρ V δ : Type}

/-- The result was collected for the connection at that revision. -/
def Collected (collections : List (Collection δ)) (server : Server) (revision : Nat)
    (result : Except String δ) : Prop :=
  ∃ c ∈ collections, c.server.id = server.id ∧ fields c.server = fields server ∧
    c.revision = revision ∧ c.result = result

/-- The outcome is a result that was collected for the connection at that revision. -/
def Traced (collections : List (Collection δ)) (server : Server) (revision : Nat) :
    Outcome δ → Prop
  | .ok reading => Collected collections server revision (.ok reading.data)
  | .error e => Collected collections server revision (.error e)

namespace Phase

/-- The connection has been looked at under the barrier. -/
def checked : Phase δ → Bool
  | .recording _ _ _ | .publishing _ _ | .published _ _ => true
  | _ => false

/-- What the phase carries was collected. -/
def Traced (collections : List (Collection δ)) (server : Server) (revision : Nat) :
    Phase δ → Prop
  | .collected _ _ _ result | .guarded _ _ _ result => Collected collections server revision result
  | .recording _ _ data => Collected collections server revision (.ok data)
  | .publishing _ o | .published _ o => Sampling.Traced collections server revision o
  | .returned o => o = .error changed ∨ Sampling.Traced collections server revision o
  | _ => True

theorem clone_of_locks {p : Phase δ} (h : p.locks = true) : ∃ g, p.clone = some g := by
  cases p with
  | locked | sharing | collecting | collected | guarded | recording | publishing | published =>
    exact ⟨_, rfl⟩
  | idle | called | queued | returned | finished | aborted => cases h

theorem locks_of_guards {p : Phase δ} (h : p.guards = true) : p.locks = true := by
  cases p with
  | guarded | recording | publishing | published => rfl
  | _ => cases h

theorem guards_of_checked {p : Phase δ} (h : p.checked = true) : p.guards = true := by
  cases p with
  | recording | publishing | published => rfl
  | _ => cases h

end Phase

structure JobOk (m : Connections ρ V) (sampling : Uuid → Option Nat)
    (collections : List (Collection δ)) (j : Job δ) : Prop where
  entered : ∀ g, j.phase.clone = some g → sampling j.server.id = some g
  past : j.revision ≤ m.connectionRevision j.server.id
  checked : j.phase.checked = true → m.matchesConnection j.server j.revision = true
  stopped : j.stopped = true → m.matchesConnection j.server j.revision = false
  traced : j.phase.Traced collections j.server j.revision

structure EntryOk (m : Connections ρ V) (collections : List (Collection δ)) (id : Uuid)
    (c : Cached δ) : Prop where
  own : c.profile.id = id
  past : c.generation ≤ m.connectionRevision id
  /-- At one revision a server has one connection. -/
  same : ∀ f, (id, f) ∈ known m.config.servers → m.connectionRevision id = c.generation →
    f = fields c.profile
  traced : Traced collections c.profile c.generation c.result

def WaiterOk (collections : List (Collection δ)) (w : Waiter δ) : Prop :=
  ∀ o, w.wait = .returned o → o = .error tooLong ∨ Traced collections w.server w.revision o

def Sampler.seen (s : Sampler ρ V δ) : List (Server × Nat) :=
  match s.reconcile with
  | some (.cached servers) | some (.gates servers) => servers
  | none => []

/-- No two jobs that are in such a phase are related so. -/
def Alone (jobs : List (Job δ)) (p : Phase δ → Bool) (related : Job δ → Job δ → Prop) : Prop :=
  ∀ (i k : Nat) (a b : Job δ), jobs[i]? = some a → jobs[k]? = some b → p a.phase = true →
    p b.phase = true → related a b → i = k

def oneServer (a b : Job δ) : Prop := a.server.id = b.server.id

def anyTwo (_ _ : Job δ) : Prop := True

structure Inv (s : Sampler ρ V δ) : Prop where
  counted : Counted s.manager
  jobs : ∀ j ∈ s.jobs, JobOk s.manager s.sampling s.collections j
  locks : Alone s.jobs Phase.locks oneServer
  guards : Alone s.jobs Phase.guards anyTwo
  barrier : s.command.isSome = true → ∀ j ∈ s.jobs, j.phase.guards = false
  seen : ∀ p ∈ s.seen, p.2 ≤ s.manager.connectionRevision p.1.id
  entries : ∀ id c, s.latest id = some c → EntryOk s.manager s.collections id c
  waiters : ∀ w ∈ s.waiters, WaiterOk s.collections w

variable {s : Sampler ρ V δ} {m m' : Connections ρ V} {j : Job δ} {n : Nat}

/-! ## What was collected -/

section
variable {collections more : List (Collection δ)} {server other : Server} {revision : Nat}

theorem Collected.grow {result : Except String δ} (h : Collected collections server revision result)
    (hsub : ∀ c ∈ collections, c ∈ more) : Collected more server revision result := by
  obtain ⟨c, hc, hsame⟩ := h
  exact ⟨c, hsub c hc, hsame⟩

theorem Collected.transfer {result : Except String δ}
    (h : Collected collections server revision result) (hid : server.id = other.id)
    (hfields : fields server = fields other) : Collected collections other revision result := by
  obtain ⟨c, hc, hcid, hcfields, hrest⟩ := h
  exact ⟨c, hc, hcid.trans hid, hcfields.trans hfields, hrest⟩

theorem Traced.grow {o : Outcome δ} (h : Traced collections server revision o)
    (hsub : ∀ c ∈ collections, c ∈ more) : Traced more server revision o := by
  cases o with
  | ok reading => exact Collected.grow h hsub
  | error e => exact Collected.grow h hsub

theorem Traced.transfer {o : Outcome δ} (h : Traced collections server revision o)
    (hid : server.id = other.id) (hfields : fields server = fields other) :
    Traced collections other revision o := by
  cases o with
  | ok reading => exact Collected.transfer h hid hfields
  | error e => exact Collected.transfer h hid hfields

theorem Phase.Traced.grow {p : Phase δ} (h : p.Traced collections server revision)
    (hsub : ∀ c ∈ collections, c ∈ more) : p.Traced more server revision := by
  cases p with
  | collected | guarded | recording => exact Collected.grow h hsub
  | publishing | published => exact Sampling.Traced.grow h hsub
  | returned o => exact h.imp_right fun h => h.grow hsub
  | _ => trivial

/-- An entry of the connection that is asked for was collected for it. -/
theorem traced_shared (h : Inv s) {o : Outcome δ} (hshared : s.shared server revision = some o) :
    Traced s.collections server revision o := by
  obtain ⟨c, hc, hfor⟩ := Option.bind_eq_some_iff.mp hshared
  split at hfor
  · next hmatch =>
    obtain rfl := Option.some.inj hfor
    obtain ⟨hsame, hgeneration⟩ := Bool.and_eq_true_iff.mp hmatch
    have hentry := h.entries _ _ hc
    rw [← of_decide_eq_true hgeneration]
    exact hentry.traced.transfer hentry.own (sameConnection_iff.mp hsame)
  · cases hfor

end

/-! ## Locks -/

theorem mem_modify {jobs : List (Job δ)} {f : Job δ → Job δ} {j' : Job δ}
    (h : j' ∈ jobs.modify n f) : j' ∈ jobs ∨ ∃ j, jobs[n]? = some j ∧ j' = f j := by
  obtain ⟨i, hi⟩ := List.mem_iff_getElem?.mp h
  rw [List.getElem?_modify] at hi
  obtain ⟨j, hj, rfl⟩ := Option.map_eq_some_iff.mp hi
  by_cases hin : n = i
  · subst hin
    rw [if_pos rfl]
    exact .inr ⟨j, hj, rfl⟩
  · rw [if_neg hin]
    exact .inl (List.mem_of_getElem? hj)

/-- A job that goes to a phase which holds the lock had it, or found it free. -/
theorem Alone.modify {jobs : List (Job δ)} {p : Phase δ → Bool}
    {related : Job δ → Job δ → Prop} (h : Alone jobs p related) (hj : jobs[n]? = some j)
    {phase : Phase δ} (hsymm : ∀ a b, related a b → related b a)
    (hrelated : ∀ k, related k { j with phase := phase } → related k j)
    (hp : p phase = true → p j.phase = true ∨
      ∀ k ∈ jobs, p k.phase = true → ¬ related k j) :
    Alone (jobs.modify n fun j => { j with phase := phase }) p related := by
  have hcases : ∀ i a, (jobs.modify n fun j => { j with phase := phase })[i]? = some a →
      i = n ∧ a = { j with phase := phase } ∨ i ≠ n ∧ jobs[i]? = some a := by
    intro i a ha
    rw [List.getElem?_modify] at ha
    by_cases hin : n = i
    · subst hin
      rw [hj] at ha
      exact .inl ⟨rfl, by simpa using ha.symm⟩
    · exact .inr ⟨Ne.symm hin, by simpa [hin] using ha⟩
  have hother : ∀ i a, i ≠ n → jobs[i]? = some a → p a.phase = true → p phase = true →
      ¬ related a { j with phase := phase } := by
    intro i a hi ha hpa hphase hrel
    rcases hp hphase with hheld | hfree
    · exact hi (h i n a j ha hj hpa hheld (hrelated a hrel))
    · exact hfree a (List.mem_of_getElem? ha) hpa (hrelated a hrel)
  intro i k a b ha hb hpa hpb hrel
  rcases hcases i a ha with ⟨rfl, rfl⟩ | ⟨hi, hia⟩
  · rcases hcases k b hb with ⟨rfl, -⟩ | ⟨hk, hkb⟩
    · rfl
    · exact absurd (hsymm _ _ hrel) (hother k b hk hkb hpb hpa)
  · rcases hcases k b hb with ⟨rfl, rfl⟩ | ⟨hk, hkb⟩
    · exact absurd hrel (hother i a hi hia hpa hpb)
    · exact h i k a b hia hkb hpa hpb hrel

/-- Jobs that begin hold no lock. -/
theorem Alone.append {jobs new : List (Job δ)} {p : Phase δ → Bool}
    {related : Job δ → Job δ → Prop} (h : Alone jobs p related)
    (hnew : ∀ j ∈ new, p j.phase = false) : Alone (jobs ++ new) p related := by
  have hold : ∀ (i : Nat) (a : Job δ), (jobs ++ new)[i]? = some a → p a.phase = true →
      jobs[i]? = some a := by
    intro i a ha hpa
    rcases Nat.lt_or_ge i jobs.length with hlt | hge
    · rw [List.getElem?_append_left hlt] at ha
      exact ha
    · rw [List.getElem?_append_right hge] at ha
      rw [hnew a (List.mem_of_getElem? ha)] at hpa
      cases hpa
  intro i k a b ha hb hpa hpb
  exact h i k a b (hold i a ha hpa) (hold k b hb hpb) hpa hpb

theorem Alone.map {jobs : List (Job δ)} {f : Job δ → Job δ} {p : Phase δ → Bool}
    {related : Job δ → Job δ → Prop} (h : Alone jobs p related)
    (hf : ∀ j, (f j).phase = j.phase) (hrelated : ∀ a b, related (f a) (f b) → related a b) :
    Alone (jobs.map f) p related := by
  intro i k a b ha hb hpa hpb hrel
  rw [List.getElem?_map] at ha hb
  obtain ⟨a', hia, rfl⟩ := Option.map_eq_some_iff.mp ha
  obtain ⟨b', hkb, rfl⟩ := Option.map_eq_some_iff.mp hb
  rw [hf] at hpa hpb
  exact h i k a' b' hia hkb hpa hpb (hrelated a' b' hrel)

/-- A free gate is locked by no job of its server. -/
theorem not_locked {gate : Nat} (h : Inv s) (hj : j ∈ s.jobs) (hclone : j.phase.clone = some gate)
    (hfree : s.gateFree gate = true) : ∀ k ∈ s.jobs, k.phase.locks = true → ¬ oneServer k j := by
  intro k hk hlocks hsame
  obtain ⟨g, hg⟩ := Phase.clone_of_locks hlocks
  have hgate : g = gate := by
    have hmine := (h.jobs j hj).entered gate hclone
    have htheirs := (h.jobs k hk).entered g hg
    rw [show k.server.id = j.server.id from hsame, hmine] at htheirs
    exact (Option.some.inj htheirs).symm
  have hany : (s.jobs.any fun j => j.phase.clone = some gate && j.phase.locks) = true := by
    refine List.any_eq_true.mpr ⟨k, hk, ?_⟩
    rw [hg, hgate, hlocks]
    simp
  rw [Sampler.gateFree, hany] at hfree
  cases hfree

theorem not_guarded (hfree : s.historyFree = true) :
    s.command = none ∧ ∀ k ∈ s.jobs, k.phase.guards = false := by
  obtain ⟨hcommand, hjobs⟩ := Bool.and_eq_true_iff.mp hfree
  refine ⟨Option.isNone_iff_eq_none.mp hcommand, fun k hk => ?_⟩
  have hnone := List.any_eq_false.mp (by simpa using hjobs : s.jobs.any _ = false) k hk
  exact eq_false_of_ne_true hnone

/-! ## One part changes -/

/-- What must hold for a job to go to a phase. -/
structure Fits (s : Sampler ρ V δ) (j : Job δ) (p : Phase δ) : Prop where
  entered : ∀ g, p.clone = some g → s.sampling j.server.id = some g
  locks : p.locks = true → j.phase.locks = true ∨
    ∀ k ∈ s.jobs, k.phase.locks = true → ¬ oneServer k j
  guards : p.guards = true → j.phase.guards = true ∨ s.historyFree = true
  checked : p.checked = true → s.manager.matchesConnection j.server j.revision = true
  traced : p.Traced s.collections j.server j.revision

theorem Inv.setPhase (h : Inv s) (hj : s.jobs[n]? = some j) {p : Phase δ} (hp : Fits s j p) :
    Inv (s.setPhase n p) := by
  have hmem := List.mem_of_getElem? hj
  have hok := h.jobs j hmem
  refine ⟨h.counted, fun k hk => ?_, ?_, ?_, fun hcommand k hk => ?_, h.seen, h.entries, h.waiters⟩
  · rcases mem_modify hk with hk | ⟨j', hj', rfl⟩
    · exact h.jobs k hk
    · obtain rfl := Option.some.inj (hj'.symm.trans hj)
      exact ⟨hp.entered, hok.past, hp.checked, hok.stopped, hp.traced⟩
  · exact h.locks.modify hj (fun _ _ hab => hab.symm) (fun _ hk => hk) hp.locks
  · refine h.guards.modify hj (fun _ _ _ => trivial) (fun _ _ => trivial) fun hguards => ?_
    rcases hp.guards hguards with hheld | hfree
    · exact .inl hheld
    · refine .inr fun k hk hpk => ?_
      rw [(not_guarded hfree).2 k hk] at hpk
      cases hpk
  · rcases mem_modify hk with hk | ⟨j', hj', rfl⟩
    · exact h.barrier hcommand k hk
    · apply eq_false_of_ne_true
      intro hguards
      rcases hp.guards hguards with hheld | hfree
      · rw [h.barrier hcommand j hmem] at hheld
        cases hheld
      · change s.command.isSome = true at hcommand
        rw [(not_guarded hfree).1] at hcommand
        cases hcommand

/-- The manager goes on, and no job holds the barrier when it changes a connection. -/
theorem Inv.setManager (h : Inv s) (hm : Follows s.manager m')
    (hfree : Same s.manager m' ∨ ∀ j ∈ s.jobs, j.phase.guards = false) :
    Inv { s with manager := m' } := by
  refine ⟨hm.counted, fun j hj => ?_, h.locks, h.guards, h.barrier,
    fun p hp => (h.seen p hp).trans (hm.revisions _), fun id c hc => ?_, h.waiters⟩
  · have hok := h.jobs j hj
    refine ⟨hok.entered, hok.past.trans (hm.revisions _), fun hchecked => ?_,
      fun hstopped => hm.not_matches hok.past (hok.stopped hstopped), hok.traced⟩
    rcases hfree with hsame | hnone
    · rw [hsame.matches]
      exact hok.checked hchecked
    · have hguards := Phase.guards_of_checked hchecked
      rw [hnone j hj] at hguards
      cases hguards
  · have hentry := h.entries id c hc
    have hle := hm.revisions id
    have hpast := hentry.past
    refine ⟨hentry.own, hpast.trans hle, fun f hf hrevision => ?_, hentry.traced⟩
    change m'.connectionRevision id = c.generation at hrevision
    rcases hm.servers id f hf with hold | hlt
    · exact hentry.same f hold (by omega)
    · omega

theorem Inv.setLatest (h : Inv s) {latest : Uuid → Option (Cached δ)}
    (hlatest : ∀ id c, latest id = some c → EntryOk s.manager s.collections id c) :
    Inv { s with latest := latest } :=
  ⟨h.counted, h.jobs, h.locks, h.guards, h.barrier, h.seen, hlatest, h.waiters⟩

theorem Inv.setSampling (h : Inv s) {sampling : Uuid → Option Nat}
    (hsampling : ∀ j ∈ s.jobs, ∀ g, j.phase.clone = some g → sampling j.server.id = some g) :
    Inv { s with sampling := sampling } := by
  refine ⟨h.counted, fun j hj => ?_, h.locks, h.guards, h.barrier, h.seen, h.entries, h.waiters⟩
  have hok := h.jobs j hj
  exact ⟨hsampling j hj, hok.past, hok.checked, hok.stopped, hok.traced⟩

theorem Inv.setWaiters (h : Inv s) {waiters : List (Waiter δ)}
    (hwaiters : ∀ w ∈ waiters, WaiterOk s.collections w) : Inv { s with waiters := waiters } :=
  ⟨h.counted, h.jobs, h.locks, h.guards, h.barrier, h.seen, h.entries, hwaiters⟩

theorem Inv.setReconcile (h : Inv s) {r : Option Reconcile}
    (hseen : ∀ p ∈ { s with reconcile := r }.seen,
      p.2 ≤ s.manager.connectionRevision p.1.id) : Inv { s with reconcile := r } :=
  ⟨h.counted, h.jobs, h.locks, h.guards, h.barrier, hseen, h.entries, h.waiters⟩

theorem Inv.setCommand (h : Inv s) {c : Option Command}
    (hbarrier : c.isSome = true → ∀ j ∈ s.jobs, j.phase.guards = false) :
    Inv { s with command := c } :=
  ⟨h.counted, h.jobs, h.locks, h.guards, hbarrier, h.seen, h.entries, h.waiters⟩

/-- What the gates and the store keep, no part of the invariant reads. -/
theorem Inv.setStore (h : Inv s) (gates : List (Option Nat)) (rows recorded : List (Row δ))
    (publications : List (Cached δ)) : Inv { s with
      gates := gates, rows := rows, recorded := recorded, publications := publications } :=
  ⟨h.counted, h.jobs, h.locks, h.guards, h.barrier, h.seen, h.entries, h.waiters⟩

theorem Inv.collect (h : Inv s) (c : Collection δ) : Inv (s.collect c) := by
  have hsub : ∀ x ∈ s.collections, x ∈ s.collections ++ [c] := fun x hx =>
    List.mem_append_left _ hx
  refine ⟨h.counted, fun j hj => ?_, h.locks, h.guards, h.barrier, h.seen, fun id e he => ?_,
    fun w hw o ho => ?_⟩
  · have hok := h.jobs j hj
    exact ⟨hok.entered, hok.past, hok.checked, hok.stopped, hok.traced.grow hsub⟩
  · have hentry := h.entries id e he
    exact ⟨hentry.own, hentry.past, hentry.same, hentry.traced.grow hsub⟩
  · exact (h.waiters w hw o ho).imp_right fun h => h.grow hsub

/-- Jobs that begin. -/
theorem Inv.append (h : Inv s) {new : List (Job δ)}
    (hnew : ∀ j ∈ new, j.phase.clone = none ∧ j.phase.locks = false ∧ j.stopped = false ∧
      j.revision ≤ s.manager.connectionRevision j.server.id ∧
      j.phase.Traced s.collections j.server j.revision) : Inv { s with jobs := s.jobs ++ new } := by
  have hguards : ∀ j ∈ new, j.phase.guards = false := by
    intro j hj
    apply eq_false_of_ne_true
    intro hg
    have hlocks := Phase.locks_of_guards hg
    rw [(hnew j hj).2.1] at hlocks
    cases hlocks
  refine ⟨h.counted, fun j hj => ?_, h.locks.append fun j hj => (hnew j hj).2.1,
    h.guards.append hguards, fun hcommand j hj => ?_, h.seen, h.entries, h.waiters⟩
  · rcases List.mem_append.mp hj with hj | hj
    · exact h.jobs j hj
    · obtain ⟨hclone, -, hstopped, hpast, htraced⟩ := hnew j hj
      refine ⟨fun g hg => ?_, hpast, fun hchecked => ?_, fun hs => ?_, htraced⟩
      · rw [hclone] at hg
        cases hg
      · have hg := Phase.guards_of_checked hchecked
        rw [hguards j hj] at hg
        cases hg
      · rw [hstopped] at hs
        cases hs
  · rcases List.mem_append.mp hj with hj | hj
    · exact h.barrier hcommand j hj
    · exact hguards j hj

end Porthop.Sampling
