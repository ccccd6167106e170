import Porthop.Sampling.Steps

/- Readings stay with their connections. -/
namespace Porthop.Sampling

open Porthop.Run
open Porthop.Profile
open Porthop.Profile.Manager (fields sameConnection_iff update_same update_other)

variable {ρ V δ : Type} {A : Addresses} {s t u : Sampler ρ V δ} {j : Job δ} {n k : Nat}

/-! ## What is stored -/

/-- A first reading that makes no step itself is as it was, or has been notified. -/
def Waits (s t : Sampler ρ V δ) (k : Nat) : Prop :=
  ∀ w, s.waiters[k]? = some w → t.waiters[k]? = some w ∨ t.waiters[k]? = some w.notify

/-- What a step adds to the history and the cache is of connections that are saved. -/
structure Stores (s t : Sampler ρ V δ) (own : Option Nat) : Prop where
  manager : Follows s.manager t.manager
  recorded : ∃ rows, t.recorded = s.recorded ++ rows ∧
    ∀ row ∈ rows, s.manager.matchesConnection row.server row.revision = true ∧
      Collected s.collections row.server row.revision (.ok row.data)
  publications : ∃ entries, t.publications = s.publications ++ entries ∧
    ∀ c ∈ entries, s.manager.matchesConnection c.profile c.generation = true ∧
      Traced s.collections c.profile c.generation c.result
  waiters : ∀ k, own ≠ some k → Waits s t k

theorem waits_same (hwaiters : t.waiters = s.waiters) (k : Nat) : Waits s t k := by
  intro w hw
  rw [hwaiters]
  exact .inl hw

theorem stores_quiet {own : Option Nat} (hm : Follows s.manager t.manager)
    (hrecorded : t.recorded = s.recorded) (hpublications : t.publications = s.publications)
    (hwaiters : ∀ k, own ≠ some k → Waits s t k) : Stores s t own where
  manager := hm
  recorded := ⟨[], by rw [hrecorded, List.append_nil], fun _ h => absurd h List.not_mem_nil⟩
  publications := ⟨[], by rw [hpublications, List.append_nil], fun _ h => absurd h List.not_mem_nil⟩
  waiters := hwaiters

theorem stores_same (h : Inv s) (hm : t.manager = s.manager) (hrecorded : t.recorded = s.recorded)
    (hpublications : t.publications = s.publications) (hwaiters : t.waiters = s.waiters) :
    Stores s t none := by
  refine stores_quiet ?_ hrecorded hpublications fun k _ => waits_same hwaiters k
  rw [hm]
  exact (Same.refl s.manager).follows h.counted

theorem stores_enter (h : Inv s) (requested : Nat) (id : Uuid) :
    Stores s (s.enter n requested id) none := by
  rw [Sampler.enter]
  split
  · exact stores_same h rfl rfl rfl rfl
  · exact stores_same h rfl rfl rfl rfl

theorem stores_begin (h : Inv s) (gate requested : Nat) (j : Job δ) :
    Stores s (s.begin n gate requested j) none := by
  rw [Sampler.begin]
  split
  · exact stores_same h rfl rfl rfl rfl
  · split
    · exact stores_same h rfl rfl rfl rfl
    · exact stores_same h rfl rfl rfl rfl

theorem stores_publish (h : Inv s) {gate : Nat} {o : Outcome δ} (hj : s.jobs[n]? = some j)
    (hphase : j.phase = .publishing gate o) :
    Stores s ((s.publish j.server j.revision o).setPhase n (.published gate o)) none where
  manager := (Same.refl s.manager).follows h.counted
  recorded := ⟨[], (List.append_nil _).symm, fun _ h => absurd h List.not_mem_nil⟩
  publications := by
    refine ⟨[s.cache j.server j.revision o], rfl, fun c hc => ?_⟩
    obtain rfl := List.mem_singleton.mp hc
    obtain ⟨hprofile, hgeneration⟩ := cache_profile s j.server j.revision o
    have hok := h.jobs j (List.mem_of_getElem? hj)
    have htraced := hok.traced
    rw [hphase] at htraced
    rw [hprofile, hgeneration]
    exact ⟨hok.checked (by rw [hphase]; rfl), cache_traced h htraced⟩
  waiters k _ w hw := by
    right
    show (s.waiters.map Waiter.notify)[k]? = _
    rw [List.getElem?_map, hw]
    rfl

theorem stores_record (h : Inv s) {gate sampledAt : Nat} {data : δ} (hj : s.jobs[n]? = some j)
    (hphase : j.phase = .recording gate sampledAt data) (result : Except String Unit) :
    Stores s (s.record n gate sampledAt j data result) none := by
  cases result with
  | error e => exact stores_same h rfl rfl rfl rfl
  | ok =>
    refine ⟨(Same.refl s.manager).follows h.counted, ?_, ?_, fun k _ => waits_same rfl k⟩
    · refine ⟨[⟨j.server, j.revision, sampledAt, data⟩], rfl, fun row hrow => ?_⟩
      obtain rfl := List.mem_singleton.mp hrow
      have hok := h.jobs j (List.mem_of_getElem? hj)
      have htraced := hok.traced
      rw [hphase] at htraced
      exact ⟨hok.checked (by rw [hphase]; rfl), htraced⟩
    · exact ⟨[], (List.append_nil _).symm, fun _ h => absurd h List.not_mem_nil⟩

theorem stores_proceed (h : Inv s) (hj : s.jobs[n]? = some j) (hstep : s.proceed n j = some t) :
    Stores s t none := by
  rw [Sampler.proceed] at hstep
  split at hstep
  · cases hstep
    exact stores_enter h _ _
  · split at hstep
    · cases hstep
      exact stores_same h rfl rfl rfl rfl
    · cases hstep
  · cases hstep
    exact stores_begin h _ _ j
  · split at hstep
    · cases hstep
      exact stores_same h rfl rfl rfl rfl
    · cases hstep
      exact stores_same h rfl rfl rfl rfl
  · split at hstep
    · cases hstep
      exact stores_same h rfl rfl rfl rfl
    · cases hstep
  · next hphase =>
    cases hstep
    exact stores_publish h hj hphase
  · cases hstep
    exact stores_same h rfl rfl rfl rfl
  · cases hstep

theorem stores_check (h : Inv s) (gate started sampledAt wall : Nat) (j : Job δ)
    (result : Except String δ) : Stores s (s.check n gate started sampledAt wall j result) none := by
  unfold Sampler.check
  split
  · exact stores_same h rfl rfl rfl rfl
  · split
    · exact stores_same h rfl rfl rfl rfl
    · have hsame := same_observe s.manager j.revision ⟨j.server, started, s.manager.now, wall, .ok ()⟩
      exact stores_quiet (hsame.follows h.counted) rfl rfl fun k _ => waits_same rfl k

theorem stores_reconciled (h : Inv s) : Stores s s.reconciled none := by
  rw [Sampler.reconciled]
  split
  · exact stores_same h rfl rfl rfl rfl
  · exact stores_same h rfl rfl rfl rfl
  · exact stores_same h rfl rfl rfl rfl

theorem stores_commanded (h : Inv s) (result : Except String Unit) (c : Command) :
    Stores s (s.commanded A result c) none := by
  have hfollows := commanded_manager (A := A) h.counted result c
  cases c with
  | saveServer | clearCache | leave => exact stores_quiet hfollows rfl rfl fun k _ => waits_same rfl k
  | deleteServer id =>
    simp only [Sampler.commanded] at hfollows ⊢
    split at hfollows
    · exact stores_quiet hfollows rfl rfl fun k _ => waits_same rfl k
    · exact stores_quiet hfollows rfl rfl fun k _ => waits_same rfl k
  | cleanUp | clearRows =>
    cases result with
    | ok => exact stores_quiet hfollows rfl rfl fun k _ => waits_same rfl k
    | error => exact stores_quiet hfollows rfl rfl fun k _ => waits_same rfl k

/-! ## First readings on their way -/

/-- The entry is there for a reading that still looks or is to be woken, or it has returned. -/
def OnWay (s : Sampler ρ V δ) (k : Nat) (c : Cached δ) (server : Server) (revision : Nat) : Prop :=
  c.isFor server revision = true ∧ s.latest server.id = some c ∧
    ∃ w, s.waiters[k]? = some w ∧ w.server = server ∧ w.revision = revision ∧
      (w.wait = .returned c.result ∨ w.wait = .waiting true ∨ ∃ notified, w.wait = .looking notified)

theorem onWay_shared {c : Cached δ} {server : Server} {revision : Nat}
    (h : OnWay s k c server revision) : s.shared server revision = some c.result := by
  rw [Sampler.shared, h.2.1, Option.bind_some, if_pos h.1]

theorem setWait_get {w : Waiter δ} (hw : s.waiters[k]? = some w) (wait : Wait δ) :
    (s.setWait k wait).waiters[k]? = some { w with wait := wait } := by
  show (s.waiters.modify k fun w => { w with wait := wait })[k]? = _
  simp [hw]

theorem setWait_other {i : Nat} (hi : i ≠ k) (wait : Wait δ) :
    (s.setWait i wait).waiters[k]? = s.waiters[k]? := by
  show (s.waiters.modify i fun w => { w with wait := wait })[k]? = _
  simp [hi]

/-- A step of one first reading. -/
theorem stores_wait (h : Inv s) (k : Nat) (wait : Wait δ) : Stores s (s.setWait k wait) (some k) := by
  refine stores_quiet ((Same.refl s.manager).follows h.counted) rfl rfl fun i hi w hw => .inl ?_
  have hne : k ≠ i := fun heq => hi (congrArg some heq)
  rw [setWait_other hne]
  exact hw

/-- The events that are steps of a first reading. -/
def ofWaiter : Event ρ δ → Option Nat
  | .look k | .wake k | .timeout k => some k
  | _ => none

/-- Where a first reading is after a step of its own. -/
theorem onWay_look {c : Cached δ} {server : Server} {revision : Nat}
    (h : OnWay s k c server revision) {w : Waiter δ} (hw : s.waiters[k]? = some w)
    (hstep : s.look k w = some t) : OnWay t k c server revision := by
  have hshared := onWay_shared h
  obtain ⟨hfor, hlatest, w', hw', hserver, hrevision, hwait⟩ := h
  obtain rfl := Option.some.inj (hw'.symm.trans hw)
  rw [Sampler.look, hserver, hrevision, hshared] at hstep
  split at hstep
  · cases hstep
    exact ⟨hfor, hlatest, _, setWait_get hw' _, hserver, hrevision, .inl rfl⟩
  · cases hstep

theorem onWay_wake {c : Cached δ} {server : Server} {revision : Nat}
    (h : OnWay s k c server revision) {w : Waiter δ} (hw : s.waiters[k]? = some w)
    (hstep : s.wake k w = some t) : OnWay t k c server revision := by
  obtain ⟨hfor, hlatest, w', hw', hserver, hrevision, hwait⟩ := h
  obtain rfl := Option.some.inj (hw'.symm.trans hw)
  rw [Sampler.wake] at hstep
  split at hstep
  · cases hstep
    exact ⟨hfor, hlatest, _, setWait_get hw' _, hserver, hrevision, .inr (.inr ⟨false, rfl⟩)⟩
  · cases hstep

theorem onWay_waits {c : Cached δ} {server : Server} {revision : Nat}
    (h : OnWay s k c server revision) (hlatest : t.latest server.id = s.latest server.id)
    (hwaits : Waits s t k) : OnWay t k c server revision := by
  obtain ⟨hfor, hold, w, hw, hserver, hrevision, hwait⟩ := h
  refine ⟨hfor, hlatest.trans hold, ?_⟩
  rcases hwaits w hw with hsame | hnotified
  · exact ⟨w, hsame, hserver, hrevision, hwait⟩
  · refine ⟨w.notify, hnotified, ?_⟩
    rcases hwait with hwait | hwait | ⟨notified, hwait⟩
    · have hnotify : w.notify = w := by rw [Waiter.notify, hwait]
      rw [hnotify]
      exact ⟨hserver, hrevision, .inl hwait⟩
    · have hnotify : w.notify = { w with wait := .waiting true } := by rw [Waiter.notify, hwait]
      rw [hnotify]
      exact ⟨hserver, hrevision, .inr (.inl rfl)⟩
    · have hnotify : w.notify = { w with wait := .looking true } := by rw [Waiter.notify, hwait]
      rw [hnotify]
      exact ⟨hserver, hrevision, .inr (.inr ⟨true, rfl⟩)⟩

/-- A reading that is published is on its way to every first reading that waits for it. -/
theorem onWay_publish {gate : Nat} {o : Outcome δ} {w : Waiter δ} (hw : s.waiters[k]? = some w)
    (hopen : ∀ r, w.wait ≠ .returned r) (hid : w.server.id = j.server.id)
    (hsame : j.server.sameConnection w.server = true) (hrevision : j.revision = w.revision) :
    OnWay ((s.publish j.server j.revision o).setPhase n (.published gate o)) k
      (s.cache j.server j.revision o) w.server w.revision := by
  obtain ⟨hprofile, hgeneration⟩ := cache_profile s j.server j.revision o
  refine ⟨?_, ?_, w.notify, ?_, ?_⟩
  · rw [Cached.isFor, hprofile, hgeneration, hsame, hrevision, decide_eq_true rfl]
    rfl
  · rw [hid]
    exact update_same _ _ _
  · show (s.waiters.map Waiter.notify)[k]? = _
    rw [List.getElem?_map, hw]
    rfl
  · cases hwait : w.wait with
    | returned r => exact absurd hwait (hopen r)
    | waiting notified =>
      have hnotify : w.notify = { w with wait := .waiting true } := by rw [Waiter.notify, hwait]
      rw [hnotify]
      exact ⟨rfl, rfl, .inr (.inl rfl)⟩
    | looking notified =>
      have hnotify : w.notify = { w with wait := .looking true } := by rw [Waiter.notify, hwait]
      rw [hnotify]
      exact ⟨rfl, rfl, .inr (.inr ⟨true, rfl⟩)⟩

/-! ## Steps -/

variable [DecidableEq V] {toValue : Content ρ → V}

theorem stores_step (h : Inv s) {e : Event ρ δ} (hstep : s.step A toValue e = some t) :
    Stores s t (ofWaiter e) := by
  cases e with
  | manager e =>
    simp only [Sampler.step] at hstep
    split at hstep
    · cases hstep
    · next hedits =>
      obtain ⟨m, hm, rfl⟩ := Option.map_eq_some_iff.mp hstep
      have hsame := same_step (eq_false_of_ne_true hedits) hm
      exact stores_quiet (hsame.follows h.counted) rfl rfl fun k _ => waits_same rfl k
  | begin c =>
    simp only [Sampler.step] at hstep
    split at hstep
    · cases hstep
      exact stores_same h rfl rfl rfl rfl
    · cases hstep
  | command result =>
    obtain ⟨c, -, rfl⟩ := Option.map_eq_some_iff.mp hstep
    exact stores_commanded h result c
  | reconcile =>
    cases hstep
    exact stores_reconciled h
  | worker n =>
    obtain ⟨j, -, hstep⟩ := Option.bind_eq_some_iff.mp hstep
    rw [Sampler.tick] at hstep
    split at hstep
    · split at hstep <;> (cases hstep; exact stores_same h rfl rfl rfl rfl)
    · split at hstep <;> (cases hstep; exact stores_same h rfl rfl rfl rfl)
    · cases hstep
  | abort n =>
    obtain ⟨j, -, hstep⟩ := Option.bind_eq_some_iff.mp hstep
    split at hstep
    · cases hstep
      exact stores_same h rfl rfl rfl rfl
    · cases hstep
  | sample id =>
    obtain ⟨p, -, rfl⟩ := Option.map_eq_some_iff.mp hstep
    exact stores_same h rfl rfl rfl rfl
  | firstReading id =>
    obtain ⟨p, -, rfl⟩ := Option.map_eq_some_iff.mp hstep
    refine stores_quiet ((Same.refl s.manager).follows h.counted) rfl rfl fun k _ w hw => .inl ?_
    have hlt : k < s.waiters.length := (List.getElem?_eq_some_iff.mp hw).1
    exact (List.getElem?_append_left hlt).trans hw
  | proceed n =>
    obtain ⟨j, hj, hstep⟩ := Option.bind_eq_some_iff.mp hstep
    exact stores_proceed h hj hstep
  | collected n result sampledAt =>
    obtain ⟨j, -, hstep⟩ := Option.bind_eq_some_iff.mp hstep
    split at hstep
    · cases hstep
      exact stores_same h rfl rfl rfl rfl
    · cases hstep
  | check n wall =>
    obtain ⟨j, -, hstep⟩ := Option.bind_eq_some_iff.mp hstep
    split at hstep
    · cases hstep
      exact stores_check h _ _ _ _ j _
    · cases hstep
  | record n result =>
    obtain ⟨j, hj, hstep⟩ := Option.bind_eq_some_iff.mp hstep
    split at hstep
    · next hphase =>
      cases hstep
      exact stores_record h hj hphase result
    · cases hstep
  | look k =>
    obtain ⟨w, -, hstep⟩ := Option.bind_eq_some_iff.mp hstep
    rw [Sampler.look] at hstep
    split at hstep
    · split at hstep <;> (cases hstep; exact stores_wait h k _)
    · cases hstep
  | wake k =>
    obtain ⟨w, -, hstep⟩ := Option.bind_eq_some_iff.mp hstep
    rw [Sampler.wake] at hstep
    split at hstep
    · cases hstep
      exact stores_wait h k _
    · cases hstep
  | timeout k =>
    obtain ⟨w, -, hstep⟩ := Option.bind_eq_some_iff.mp hstep
    rw [Sampler.timeout] at hstep
    split at hstep
    · cases hstep
    · cases hstep
      exact stores_wait h k _

end Porthop.Sampling
