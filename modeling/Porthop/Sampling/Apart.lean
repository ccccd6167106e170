import Porthop.Sampling.Connected

/- Readings never cross connections. -/
namespace Porthop.Sampling

open Porthop.Run
open Porthop.Profile
open Porthop.Profile.Manager (fields sameConnection_iff update_same update_other)

variable {ρ V δ : Type} {A : Addresses} {s t u : Sampler ρ V δ} {j : Job δ} {n k : Nat}

/-- At most one collection for each server. -/
def OneCollection (s : Sampler ρ V δ) : Prop :=
  ∀ (i k : Nat) (a b : Job δ), s.jobs[i]? = some a → s.jobs[k]? = some b →
    a.phase.isCollecting = true → b.phase.isCollecting = true → a.server.id = b.server.id → i = k

/-- The command has saved the server with another connection, or a new one, or has deleted it. -/
inductive Edited (A : Addresses) (s : Sampler ρ V δ) (result : Except String Unit) (id : Uuid) :
    Prop where
  | saved {server : Server} {password : Option String} {m : Connections ρ V} :
    s.command = some (.saveServer server password) → server.id = id →
    s.manager.saveServer A server password result = .ok m →
    s.manager.reconnects server password = true → Edited A s result id
  | deleted {m : Connections ρ V} : s.command = some (.deleteServer id) →
    s.manager.deleteServer A id result = .ok m → Edited A s result id

/-- What is returned was collected for the connection and revision that were asked for. -/
def ReturnsOwn (s : Sampler ρ V δ) : Prop :=
  (∀ j ∈ s.jobs, ∀ o, j.phase = .returned o →
    o = .error changed ∨ Traced s.collections j.server j.revision o) ∧
  ∀ w ∈ s.waiters, ∀ o, w.wait = .returned o →
    o = .error tooLong ∨ Traced s.collections w.server w.revision o

/-- The sample knows that its collection has failed. -/
def Phase.failed : Phase δ → Bool
  | .collected _ _ _ (.error _) | .guarded _ _ _ (.error _) => true
  | .publishing _ (.error _) | .published _ (.error _) => true
  | _ => false

/-- The job that makes the step. -/
def Event.job : Event ρ δ → Option Nat
  | .worker n | .abort n | .proceed n | .collected n _ _ | .check n _ | .record n _ => some n
  | _ => none

section
variable (A) [DecidableEq V] (toValue : Content ρ → V)

/-- What a step stores or publishes was collected for a connection that is saved then. -/
def StoresCurrent (s : Sampler ρ V δ) : Prop :=
  ∀ e t, s.step A toValue e = some t →
    (∃ rows, t.recorded = s.recorded ++ rows ∧
      ∀ row ∈ rows, s.manager.matchesConnection row.server row.revision = true ∧
        Collected s.collections row.server row.revision (.ok row.data)) ∧
    ∃ entries, t.publications = s.publications ++ entries ∧
      ∀ c ∈ entries, s.manager.matchesConnection c.profile c.generation = true ∧
        Traced s.collections c.profile c.generation c.result

/-- Once a connection was edited or deleted, nothing is stored or published of its revision or
    an older one. -/
def NothingOld (s : Sampler ρ V δ) : Prop :=
  ∀ result id t, Edited A s result id → s.step A toValue (.command result) = some t →
    ∀ es u, exec (Sampler.step A toValue) es t = some u →
      (∃ rows, u.recorded = t.recorded ++ rows ∧
        ∀ row ∈ rows, row.server.id = id → s.manager.connectionRevision id < row.revision) ∧
      ∃ entries, u.publications = t.publications ++ entries ∧
        ∀ c ∈ entries, c.profile.id = id → s.manager.connectionRevision id < c.generation

/-- A sample that failed leaves every good reading, of another server or of its revision. -/
def FailureKeeps (s : Sampler ρ V δ) : Prop :=
  ∀ n j e t, s.jobs[n]? = some j → j.phase.failed = true → Event.job e = some n →
    s.step A toValue e = some t → ∀ id c previous, s.latest id = some c →
      c.result = .ok previous → id ≠ j.server.id ∨ c.generation = j.revision →
        ∃ c', t.latest id = some c' ∧ c'.generation = c.generation ∧
          ∃ error, c'.result = .ok { previous with collectionError := error }

/-- A first reading that waits when a reading of its connection and revision is published returns
    it by steps of its own, as long as the entry stays and its time is not over. -/
def Reaches (s : Sampler ρ V δ) : Prop :=
  ∀ n j gate o t k w, s.jobs[n]? = some j → j.phase = .publishing gate o →
    s.waiters[k]? = some w → (∀ r, w.wait ≠ .returned r) → w.server.id = j.server.id →
    j.server.sameConnection w.server = true → j.revision = w.revision →
    s.step A toValue (.proceed n) = some t → ∃ c, t.latest w.server.id = some c ∧
      ∀ es u, exec (Sampler.step A toValue) es t = some u →
        Along (Sampler.step A toValue) (fun s e => e ≠ .timeout k ∧ ∀ t,
          s.step A toValue e = some t → t.latest w.server.id = s.latest w.server.id) es t →
        ∃ own u', (∀ e ∈ own, e = .wake k ∨ e = .look k) ∧
          exec (Sampler.step A toValue) own u = some u' ∧
          ∃ w', u'.waiters[k]? = some w' ∧ w'.wait = .returned c.result

end

/-! ## At the start -/

theorem counted_new (A : Addresses) (stored : Except String Config) (instanceId : Uuid) (other : ρ)
    (null : V) (now : Nat) : Counted (Connections.new A stored instanceId other null now) := by
  have hinitial : ∀ (config : Config) (loadError : Option String),
      (config.servers.map Server.id).Nodup →
      Counted (Connections.initial config loadError instanceId other null now) :=
    fun config loadError hids => ⟨fun id => le_refl 0, hids⟩
  rw [Connections.new]
  cases stored with
  | error e => exact hinitial ⟨[], []⟩ (some e) List.nodup_nil
  | ok config =>
    cases hvalid : config.validate A with
    | error e =>
      simp only [bind, Except.bind, hvalid]
      exact hinitial ⟨[], []⟩ (some e) List.nodup_nil
    | ok v =>
      simp only [bind, Except.bind, hvalid]
      exact hinitial config none (Config.validate_ok hvalid).serverIds

theorem inv_initial {m : Connections ρ V} (hm : Counted m) :
    Inv (Sampler.initial m : Sampler ρ V δ) := by
  refine ⟨hm, fun _ hj => absurd hj List.not_mem_nil, ?_, ?_, ?_,
    fun _ hp => absurd hp List.not_mem_nil, ?_, fun _ hw => absurd hw List.not_mem_nil⟩
  · intro i k a b ha
    cases ha
  · intro i k a b ha
    cases ha
  · intro hc
    cases hc
  · intro id c hc
    cases hc

/-! ## Each of them -/

theorem one_collection (h : Inv s) : OneCollection s := by
  have hlocks : ∀ p : Phase δ, p.isCollecting = true → p.locks = true := by
    intro p hp
    cases p with
    | collecting => rfl
    | _ => cases hp
  intro i k a b ha hb hpa hpb hid
  exact h.locks i k a b ha hb (hlocks _ hpa) (hlocks _ hpb) hid

theorem returns_own (h : Inv s) : ReturnsOwn s := by
  refine ⟨fun j hj o ho => ?_, h.waiters⟩
  have htraced := (h.jobs j hj).traced
  rw [ho] at htraced
  exact htraced

/-- A command that edits or deletes leaves its connection gone. -/
theorem edited_gone (h : Inv s) {result : Except String Unit} {id : Uuid}
    (hedited : Edited A s result id) {c : Command} (hc : s.command = some c) :
    Gone (s.commanded A result c).manager id (s.manager.connectionRevision id) := by
  cases hedited with
  | saved hcommand hid hsave hre =>
    obtain rfl := Option.some.inj (hcommand.symm.trans hc)
    subst hid
    left
    show _ < (s.manager.orElse (s.manager.saveServer A _ _ result)).connectionRevision _
    rw [hsave]
    exact (follows_save h.counted hsave).2 hre
  | deleted hcommand hdelete =>
    obtain rfl := Option.some.inj (hcommand.symm.trans hc)
    simp only [Sampler.commanded, hdelete]
    exact (follows_delete h.counted hdelete).2

/-- Only the entry of the server that is published for changes. -/
theorem publish_keeps (h : Inv s) {error : String}
    (hmatch : s.manager.matchesConnection j.server j.revision = true) {id : Uuid} {c : Cached δ}
    {previous : Reading δ} (hc : s.latest id = some c) (hresult : c.result = .ok previous)
    (hfor : id ≠ j.server.id ∨ c.generation = j.revision) :
    ∃ c', (s.publish j.server j.revision (.error error)).latest id = some c' ∧
      c'.generation = c.generation ∧
        ∃ error, c'.result = .ok { previous with collectionError := error } := by
  by_cases hid : id = j.server.id
  · subst hid
    have hgeneration := hfor.resolve_left (not_not.mpr rfl)
    obtain ⟨hrevision, hknown⟩ := matches_iff.mp hmatch
    have hfields := (h.entries _ _ hc).same _ hknown (hrevision.trans hgeneration.symm)
    have hcache : s.cache j.server j.revision (.error error) =
        ⟨j.server, j.revision, .ok { previous with collectionError := some error }⟩ := by
      obtain ⟨profile, generation, outcome⟩ := c
      change outcome = .ok previous at hresult
      subst hresult
      change fields j.server = fields profile at hfields
      simp only [Sampler.cache, hc]
      rw [if_pos]
      rw [sameConnection_iff.mpr hfields.symm]
      exact decide_eq_true hgeneration
    refine ⟨_, update_same _ _ _, ?_, some error, ?_⟩
    · rw [hcache]
      exact hgeneration.symm
    · rw [hcache]
  · refine ⟨c, (update_other hid).trans hc, rfl, previous.collectionError, hresult⟩

variable [DecidableEq V] {toValue : Content ρ → V}

theorem stores_current (h : Inv s) : StoresCurrent A toValue s := by
  intro e t hstep
  have hstores := stores_step h hstep
  exact ⟨hstores.recorded, hstores.publications⟩

/-- Where a connection is gone, no run stores or publishes of it. -/
theorem nothing_old_run {id : Uuid} {revision : Nat} (h : Inv t)
    (hgone : Gone t.manager id revision) {es : List (Event ρ δ)}
    (hrun : exec (Sampler.step A toValue) es t = some u) :
    (∃ rows, u.recorded = t.recorded ++ rows ∧
      ∀ row ∈ rows, row.server.id = id → revision < row.revision) ∧
    ∃ entries, u.publications = t.publications ++ entries ∧
      ∀ c ∈ entries, c.profile.id = id → revision < c.generation := by
  let Later : Sampler ρ V δ → Prop := fun u => Inv u ∧ Gone u.manager id revision ∧
    (∃ rows, u.recorded = t.recorded ++ rows ∧
      ∀ row ∈ rows, row.server.id = id → revision < row.revision) ∧
    ∃ entries, u.publications = t.publications ++ entries ∧
      ∀ c ∈ entries, c.profile.id = id → revision < c.generation
  have hstep : ∀ s e s', Later s → s.step A toValue e = some s' → Later s' := by
    rintro s e s' ⟨hs, hg, ⟨rows, hrows, hold⟩, entries, hentries, hpast⟩ he
    obtain ⟨hm, ⟨rows', hrows', hnew⟩, ⟨entries', hentries', hmore⟩, -⟩ := stores_step hs he
    refine ⟨hs.step he, hg.follows hm, ⟨rows ++ rows', ?_, fun row hrow hid => ?_⟩,
      entries ++ entries', ?_, fun c hc hid => ?_⟩
    · rw [hrows', hrows, List.append_assoc]
    · rcases List.mem_append.mp hrow with hrow | hrow
      · exact hold row hrow hid
      · rw [← hid] at hg
        exact hg.lt_of_matches (hnew row hrow).1
    · rw [hentries', hentries, List.append_assoc]
    · rcases List.mem_append.mp hc with hc | hc
      · exact hpast c hc hid
      · rw [← hid] at hg
        exact hg.lt_of_matches (hmore c hc).1
  have hstart : Later t := by
    refine ⟨h, hgone, ⟨[], (List.append_nil _).symm, fun _ h => absurd h List.not_mem_nil⟩,
      [], (List.append_nil _).symm, fun _ h => absurd h List.not_mem_nil⟩
  exact (exec_invariant hstep hstart hrun).2.2

theorem nothing_old (h : Inv s) : NothingOld A toValue s := by
  intro result id t hedited hstep es u hrun
  have ht := h.step hstep
  obtain ⟨c, hc, rfl⟩ := Option.map_eq_some_iff.mp hstep
  exact nothing_old_run ht (edited_gone h hedited hc) hrun

theorem failure_keeps (h : Inv s) : FailureKeeps A toValue s := by
  intro n j e t hj hfailed hjob hstep id c previous hc hresult hfor
  have hkept : t.latest = s.latest → ∃ c', t.latest id = some c' ∧ c'.generation = c.generation ∧
      ∃ error, c'.result = .ok { previous with collectionError := error } := by
    intro hlatest
    rw [hlatest]
    exact ⟨c, hc, rfl, previous.collectionError, hresult⟩
  have hok := h.jobs j (List.mem_of_getElem? hj)
  cases e with
  | proceed i =>
    obtain rfl := Option.some.inj hjob
    simp only [Sampler.step, hj, Option.bind_some, Sampler.proceed] at hstep
    split at hstep
    · next hphase =>
      rw [hphase] at hfailed
      cases hfailed
    · next hphase =>
      rw [hphase] at hfailed
      cases hfailed
    · next hphase =>
      rw [hphase] at hfailed
      cases hfailed
    · next hphase =>
      rw [hphase] at hfailed
      cases hfailed
    · split at hstep
      · cases hstep
        exact hkept rfl
      · cases hstep
    · next gate o hphase =>
      cases o with
      | ok reading =>
        rw [hphase] at hfailed
        cases hfailed
      | error error =>
        cases hstep
        exact publish_keeps h (hok.checked (by rw [hphase]; rfl)) hc hresult hfor
    · cases hstep
      exact hkept rfl
    · cases hstep
  | check i wall =>
    obtain rfl := Option.some.inj hjob
    simp only [Sampler.step, hj, Option.bind_some] at hstep
    split at hstep
    · next hphase =>
      cases hstep
      apply hkept
      unfold Sampler.check
      split
      · rfl
      · split
        · rfl
        · rfl
    · cases hstep
  | abort i =>
    obtain rfl := Option.some.inj hjob
    simp only [Sampler.step, hj, Option.bind_some] at hstep
    split at hstep
    · cases hstep
      exact hkept rfl
    · cases hstep
  | worker i =>
    obtain rfl := Option.some.inj hjob
    simp only [Sampler.step, hj, Option.bind_some, Sampler.tick] at hstep
    split at hstep
    · split at hstep <;> (cases hstep; exact hkept rfl)
    · split at hstep <;> (cases hstep; exact hkept rfl)
    · cases hstep
  | collected i result sampledAt =>
    obtain rfl := Option.some.inj hjob
    simp only [Sampler.step, hj, Option.bind_some] at hstep
    split at hstep
    · cases hstep
      exact hkept rfl
    · cases hstep
  | record i result =>
    obtain rfl := Option.some.inj hjob
    simp only [Sampler.step, hj, Option.bind_some] at hstep
    split at hstep
    · cases hstep
      apply hkept
      cases result with
      | ok => rfl
      | error => rfl
    · cases hstep
  | _ => cases hjob

/-- Nothing that leaves the entry takes it from a first reading. -/
theorem onWay_step (h : Inv s) {c : Cached δ} {server : Server} {revision : Nat}
    (hway : OnWay s k c server revision) {e : Event ρ δ} (htime : e ≠ .timeout k)
    (hstep : s.step A toValue e = some t) (hlatest : t.latest server.id = s.latest server.id) :
    OnWay t k c server revision := by
  by_cases hown : ofWaiter e = some k
  · cases e with
    | look i =>
      obtain rfl := Option.some.inj hown
      obtain ⟨w, hw, hstep⟩ := Option.bind_eq_some_iff.mp hstep
      exact onWay_look hway hw hstep
    | wake i =>
      obtain rfl := Option.some.inj hown
      obtain ⟨w, hw, hstep⟩ := Option.bind_eq_some_iff.mp hstep
      exact onWay_wake hway hw hstep
    | timeout i =>
      obtain rfl := Option.some.inj hown
      exact absurd rfl htime
    | _ => cases hown
  · exact onWay_waits hway hlatest ((stores_step h hstep).waiters k hown)

/-- What is on its way is returned after the steps that are left. -/
theorem onWay_returns {c : Cached δ} {server : Server} {revision : Nat}
    (hway : OnWay u k c server revision) : ∃ (own : List (Event ρ δ)) (u' : Sampler ρ V δ),
      (∀ e ∈ own, e = .wake k ∨ e = .look k) ∧ exec (Sampler.step A toValue) own u = some u' ∧
      ∃ w', u'.waiters[k]? = some w' ∧ w'.wait = .returned c.result := by
  have hlook : ∀ (s : Sampler ρ V δ) (w : Waiter δ) (notified : Bool),
      OnWay s k c server revision → s.waiters[k]? = some w → w.server = server →
      w.revision = revision → w.wait = .looking notified →
      s.step A toValue (.look k) = some (s.setWait k (.returned c.result)) := by
    intro s w notified hs hw hserver hrevision hwait
    simp only [Sampler.step, hw, Option.bind_some, Sampler.look, hwait, hserver, hrevision,
      onWay_shared hs]
  obtain ⟨-, -, w, hw, hserver, hrevision, hwait⟩ := id hway
  rcases hwait with hwait | hwait | ⟨notified, hwait⟩
  · exact ⟨[], u, fun _ h => absurd h List.not_mem_nil, rfl, w, hw, hwait⟩
  · let s := u.setWait k (.looking false)
    have hwoken : u.step A toValue (.wake k) = some s := by
      simp only [Sampler.step, hw, Option.bind_some, Sampler.wake, hwait]
      rfl
    have hget : s.waiters[k]? = some { w with wait := .looking false } := setWait_get hw _
    have hs : OnWay s k c server revision :=
      ⟨hway.1, hway.2.1, _, hget, hserver, hrevision, .inr (.inr ⟨false, rfl⟩)⟩
    refine ⟨[.wake k, .look k], s.setWait k (.returned c.result), ?_, ?_, _, setWait_get hget _, rfl⟩
    · simp
    · exact exec_cons.mpr ⟨s, hwoken, exec_cons.mpr ⟨_, hlook s _ false hs hget hserver hrevision rfl,
        rfl⟩⟩
  · refine ⟨[.look k], u.setWait k (.returned c.result), ?_, ?_, _, setWait_get hw _, rfl⟩
    · simp
    · exact exec_cons.mpr ⟨_, hlook u w notified hway hw hserver hrevision hwait, rfl⟩

theorem reaches (h : Inv s) : Reaches A toValue s := by
  intro n j gate o t k w hj hphase hw hopen hid hsame hrevision hstep
  have ht := h.step hstep
  have hproceed : some ((s.publish j.server j.revision o).setPhase n (.published gate o)) = some t := by
    rw [← hstep]
    simp only [Sampler.step, hj, Option.bind_some, Sampler.proceed, hphase]
  obtain rfl := Option.some.inj hproceed
  have hway : OnWay ((s.publish j.server j.revision o).setPhase n (.published gate o)) k
      (s.cache j.server j.revision o) w.server w.revision :=
    onWay_publish hw hopen hid hsame hrevision
  refine ⟨_, hway.2.1, fun es u hrun hok => ?_⟩
  let c := s.cache j.server j.revision o
  let Kept : Sampler ρ V δ → Prop := fun s => Inv s ∧ OnWay s k c w.server w.revision
  have hkept : Kept u := by
    refine along_invariant (fun s e s' hs hquiet he => ?_) ⟨ht, hway⟩ hok hrun
    exact ⟨hs.1.step he, onWay_step hs.1 hs.2 hquiet.1 he (hquiet.2 s' he)⟩
  exact onWay_returns hkept.2

/-! ## Every run -/

/-- **Readings never cross connections.** In every run, at most one collection of a server is under
    way; what is stored or published is of a connection that is still saved, so nothing is once
    it was edited or deleted; what is returned was collected for the connection and revision
    asked for; a failure keeps the last good reading of its revision; and a reading that is
    published reaches who waits for it unless the cache loses it or the time is over before. -/
theorem readings_apart (A : Addresses) (toValue : Content ρ → V) (stored : Except String Config)
    (instanceId : Uuid) (other : ρ) (null : V) (now : Nat) (es : List (Event ρ δ))
    (s : Sampler ρ V δ) (hrun : exec (Sampler.step A toValue) es
      (Sampler.initial (Connections.new A stored instanceId other null now)) = some s) :
    OneCollection s ∧ StoresCurrent A toValue s ∧ NothingOld A toValue s ∧ ReturnsOwn s ∧
      FailureKeeps A toValue s ∧ Reaches A toValue s := by
  have h : Inv s := exec_invariant (fun s e s' hs he => hs.step he)
    (inv_initial (counted_new A stored instanceId other null now)) hrun
  exact ⟨one_collection h, stores_current h, nothing_old h, returns_own h, failure_keeps h,
    reaches h⟩

/-! ## A first reading that waits -/

namespace Waiting

def addresses : Addresses := ⟨fun _ => false, fun _ => none⟩

def server : Server := ⟨1, "", "a", "h", 22, none, none, none, .password, false, false⟩

def start : Sampler Unit Unit Nat :=
  Sampler.initial (Connections.new addresses (.ok ⟨[server], []⟩) 0 () () 3)

def step (s : Sampler Unit Unit Nat) (e : Event Unit Nat) : Option (Sampler Unit Unit Nat) :=
  s.step addresses (fun _ => ()) e

/-- A first reading waits, and a sample that was asked for by hand is about to be published. -/
def sampled : List (Event Unit Nat) :=
  [.firstReading 1, .look 0, .sample 1, .proceed 0, .proceed 0, .proceed 0,
    .collected 0 (.ok 7) 5, .proceed 0, .check 0 9, .record 0 (.ok ())]

/-- The sample ends, and the cache is cleared before the first reading looks. -/
def cleared : List (Event Unit Nat) :=
  [.proceed 0, .begin .clearRows, .command (.ok ()), .command (.ok ()), .wake 0, .look 0]

def reading : Outcome Nat := .ok ⟨7, 5, none, none⟩

def job : Job Nat := ⟨server, 0, false, false, false, .publishing 0 reading⟩

def waiter : Waiter Nat := ⟨server, 0, .waiting false⟩

theorem sampled_some : ∃ s, exec step sampled start = some s ∧ s.jobs[0]? = some job ∧
    s.waiters[0]? = some waiter := by
  obtain ⟨s, hs⟩ : ∃ s, exec step sampled start = some s :=
    Option.isSome_iff_exists.mp (by decide)
  have hjob : (exec step sampled start).bind (fun s => s.jobs[0]?) = some job := rfl
  have hwaiter : (exec step sampled start).bind (fun s => s.waiters[0]?) = some waiter := rfl
  rw [hs] at hjob hwaiter
  exact ⟨s, hs, hjob, hwaiter⟩

end Waiting

open Waiting in
/-- The reading that is published is returned once the first reading has been woken. -/
theorem waiting_returns : ∃ s t, exec step sampled start = some s ∧
    step s (.proceed 0) = some t ∧ ∃ own u, exec step own t = some u ∧
      ∃ w, u.waiters[0]? = some w ∧ w.wait = .returned reading := by
  obtain ⟨s, hs, hjob, hwaiter⟩ := sampled_some
  obtain ⟨t, ht⟩ : ∃ t, step s (.proceed 0) = some t :=
    ⟨_, by simp only [step, Sampler.step, hjob, Option.bind_some]; rfl⟩
  have hreaches := (readings_apart addresses (fun _ => ()) (.ok ⟨[server], []⟩) 0 () () 3 sampled s
    hs).2.2.2.2.2
  obtain ⟨c, hc, hrest⟩ := hreaches 0 job 0 reading t 0 waiter hjob rfl hwaiter
    (fun r hr => by cases hr) rfl (by decide) rfl ht
  have hlatest : (exec step (sampled ++ [.proceed 0]) start).bind (fun t => t.latest 1) =
    some ⟨server, 0, reading⟩ := rfl
  rw [exec_append, hs] at hlatest
  have hlast : t.latest 1 = some ⟨server, 0, reading⟩ := by
    rw [← hlatest]
    simp only [Option.bind_some, exec, ht]
  obtain rfl : (⟨server, 0, reading⟩ : Cached Nat) = c := Option.some.inj (hlast.symm.trans hc)
  obtain ⟨own, u, -, hown, hw⟩ := hrest [] t rfl trivial
  exact ⟨s, t, hs, ht, own, u, hown, hw⟩

open Waiting in
/-- A reading that is published misses who waits for it: the cache is cleared first, and the
    first reading looks, and waits again. -/
theorem cleared_misses : ∃ s t u, exec step sampled start = some s ∧ s.jobs[0]? = some job ∧
    s.waiters[0]? = some waiter ∧ step s (.proceed 0) = some t ∧ exec step cleared t = some u ∧
    Event.look 0 ∈ cleared ∧ Event.timeout 0 ∉ cleared ∧ u.waiters[0]? = some waiter := by
  obtain ⟨s, hs, hjob, hwaiter⟩ := sampled_some
  obtain ⟨u, hu⟩ : ∃ u, exec step (sampled ++ .proceed 0 :: cleared) start = some u :=
    Option.isSome_iff_exists.mp (by decide)
  have hlast : (exec step (sampled ++ .proceed 0 :: cleared) start).bind (fun u => u.waiters[0]?) =
    some waiter := rfl
  rw [hu] at hlast
  rw [exec_append, hs] at hu
  obtain ⟨t, ht, hrest⟩ := exec_cons.mp hu
  refine ⟨s, t, u, hs, hjob, hwaiter, ht, hrest, ?_, ?_, hlast⟩
  · simp [cleared]
  · simp [cleared]

end Porthop.Sampling
