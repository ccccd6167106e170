import Porthop.Files.Governed

/- What becomes of a cancel, of a shutdown and of an edit.

   A cancel that comes before its operation waits in a queue until the operation registers or
   enough other cancels have pushed it out. One that comes later sets a signal, which the next
   poll sees before it looks at the work. -/
namespace Porthop.Files

open Porthop.Run
open Profile (Uuid Server Config)

/-- Steps of a command that has the lock, of a clean-up task or of the shutdown, which leave the
operations alone. -/
def Event.quiet : Event → Bool
  | .save _ _ | .delete _ | .write _ | .release | .cleaned _ | .drained | .take | .awaited | .giveUp => true
  | _ => false

namespace System

section
variable {s t : System} {id : Uuid} {event : Event}

/-! ## A cancel before its operation -/

/-- The cancel is in the queue with at most as many behind it as were kept since, or as many
were kept since as the queue is long. -/
def Waits (id : Uuid) (base : Nat) (s : System) : Prop :=
  (∃ before behind, s.cancelled = before ++ id :: behind ∧ behind.length + base ≤ s.kept) ∨
    base + maxCancelled ≤ s.kept

theorem move_some {p : Operation → Bool} {f : Operation → Operation} (h : s.move id p f = some t) :
    t = s.update (fun e => e.id = id) f ∧ ∃ e ∈ s.entries, e.id = id ∧ p e = true := by
  unfold move at h
  split at h
  next hany =>
    obtain ⟨e, he, hp⟩ := List.any_eq_true.mp hany
    rw [Bool.and_eq_true] at hp
    exact ⟨(Option.some.inj h).symm, e, he, of_decide_eq_true hp.1, hp.2⟩
  · cases h

theorem tell_some (h : s.tell = some t) : ∃ d : Edit,
    t = { s.cancelServer d.server with edit := some { d with stage := .told } } := by
  unfold tell at h
  split at h
  · cases h
  next d hd =>
    split at h
    · exact ⟨d, (Option.some.inj h).symm⟩
    · cases h

theorem dropWork_some (h : s.dropWork id = some t) : ∃ e outcome, s.operation id = some e ∧
    e.phase = .ended outcome ∧
    t = (if e.staged then s.addCleanup e.serial else s).update (fun e => e.id = id)
      fun e => { e with phase := .dropped outcome, staged := false } := by
  unfold dropWork at h
  split at h
  · cases h
  next e he =>
    split at h
    next outcome hphase => exact ⟨e, outcome, he, hphase, (Option.some.inj h).symm⟩
    · cases h

theorem dropGuard_some (h : s.dropGuard id = some t) : ∃ e outcome, s.operation id = some e ∧
    e.phase = .dropped outcome ∧
    t = { s with
      entries := s.entries.filter fun e => e.id ≠ id
      results := s.results ++ [(e.serial, outcome)] } := by
  unfold dropGuard at h
  split at h
  · cases h
  next e he =>
    split at h
    next outcome hphase => exact ⟨e, outcome, he, hphase, (Option.some.inj h).symm⟩
    · cases h

/-- The operations, what became of them and the queue are as they were. -/
structure Alike (s t : System) : Prop where
  entries : t.entries = s.entries
  results : t.results = s.results
  cancelled : t.cancelled = s.cancelled
  kept : t.kept = s.kept
  closing : t.closing = s.closing

theorem quiet_step (hquiet : event.quiet = true) (hstep : s.step event = some t) : Alike s t := by
  cases event with
  | save server password =>
    simp only [step] at hstep
    split at hstep
    · cases hstep
      exact ⟨rfl, rfl, rfl, rfl, rfl⟩
    · cases hstep
  | delete id =>
    simp only [step] at hstep
    split at hstep
    · cases hstep
      exact ⟨rfl, rfl, rfl, rfl, rfl⟩
    · cases hstep
  | write stored =>
    simp only [step, write] at hstep
    split at hstep
    · cases hstep
    · split at hstep
      · cases hstep
      · split at hstep
        · cases hstep
          exact ⟨rfl, rfl, rfl, rfl, rfl⟩
        · cases hstep
          exact ⟨rfl, rfl, rfl, rfl, rfl⟩
  | release =>
    simp only [step, release] at hstep
    split at hstep
    · cases hstep
    · split at hstep
      · cases hstep
        exact ⟨rfl, rfl, rfl, rfl, rfl⟩
      · cases hstep
  | cleaned n =>
    simp only [step] at hstep
    split at hstep
    · cases hstep
      exact ⟨rfl, rfl, rfl, rfl, rfl⟩
    · cases hstep
  | drained =>
    simp only [step] at hstep
    split at hstep
    · cases hstep
      exact ⟨rfl, rfl, rfl, rfl, rfl⟩
    · cases hstep
  | take =>
    simp only [step] at hstep
    split at hstep
    · cases hstep
      exact ⟨rfl, rfl, rfl, rfl, rfl⟩
    · cases hstep
  | awaited =>
    simp only [step] at hstep
    split at hstep
    · cases hstep
      exact ⟨rfl, rfl, rfl, rfl, rfl⟩
    · split at hstep
      · cases hstep
        exact ⟨rfl, rfl, rfl, rfl, rfl⟩
      · cases hstep
    · cases hstep
  | giveUp =>
    simp only [step] at hstep
    split at hstep
    · cases hstep
      exact ⟨rfl, rfl, rfl, rfl, rfl⟩
    · cases hstep
      exact ⟨rfl, rfl, rfl, rfl, rfl⟩
    · cases hstep
  | register | cancel | poll | pending | ready | stage | publish | dropWork | dropGuard | tell
  | shutdown => cases hquiet

theorem Waits.erase {base : Nat} (h : Waits id base s) {other : Uuid} (hne : other ≠ id) :
    Waits id base { s with cancelled := s.cancelled.erase other } := by
  obtain ⟨before, behind, hqueue, hlen⟩ | hfull := h
  · left
    by_cases hmem : other ∈ before
    · refine ⟨before.erase other, behind, ?_, hlen⟩
      rw [hqueue, List.erase_append_left _ hmem]
    · refine ⟨before, behind.erase other, ?_, ?_⟩
      · rw [hqueue, List.erase_append_right _ hmem, List.erase_cons_tail (by simpa using Ne.symm hne)]
      · have := List.length_erase_le (a := other) (l := behind)
        simp only
        omega
  · exact Or.inr hfull

theorem Waits.push {base : Nat} (h : Waits id base s) (other : Uuid) :
    Waits id base { s with
      cancelled := (if s.cancelled.length = maxCancelled then s.cancelled.tail else s.cancelled) ++ [other]
      kept := s.kept + 1 } := by
  obtain ⟨before, behind, hqueue, hlen⟩ | hfull := h
  · by_cases hmax : s.cancelled.length = maxCancelled
    · cases before with
      | nil =>
        -- The cancel was the oldest one, and is given up.
        right
        rw [hqueue, List.nil_append, List.length_cons] at hmax
        simp only
        omega
      | cons c before =>
        left
        refine ⟨before, behind ++ [other], ?_, ?_⟩
        · simp only [if_pos hmax]
          rw [hqueue, List.cons_append, List.tail_cons, List.append_assoc, List.cons_append]
        · rw [List.length_append, List.length_singleton]
          simp only
          omega
    · left
      refine ⟨before, behind ++ [other], ?_, ?_⟩
      · simp only [if_neg hmax]
        rw [hqueue, List.append_assoc, List.cons_append]
      · rw [List.length_append, List.length_singleton]
        simp only
        omega
  · exact Or.inr (Nat.le_trans hfull (Nat.le_succ _))

theorem Waits.same {base : Nat} (h : Waits id base s) (hcancelled : t.cancelled = s.cancelled)
    (hkept : t.kept = s.kept) : Waits id base t := by
  unfold Waits
  rw [hcancelled, hkept]
  exact h

theorem Waits.step {base : Nat} (h : Waits id base s) (hstep : s.step event = some t)
    (hother : ∀ server, event ≠ .register server id) : Waits id base t := by
  by_cases hquiet : event.quiet = true
  · have hsame := quiet_step hquiet hstep
    exact h.same hsame.cancelled hsame.kept
  · cases event with
    | register server other =>
      have hne : other ≠ id := by
        rintro rfl
        exact hother server rfl
      simp only [System.step] at hstep
      split at hstep
      · cases hstep
        unfold register
        split
        · exact h
        · split
          · exact h
          · split
            · exact h.erase hne
            · split
              · exact h
              · split <;> exact h
      · cases hstep
    | cancel other =>
      cases hstep
      unfold filesCancel
      split
      · exact h
      · exact h.push other
    | poll | pending | ready | stage | publish =>
      rw [(move_some hstep).1]
      exact h
    | dropWork =>
      obtain ⟨e, outcome, -, -, rfl⟩ := dropWork_some hstep
      split <;> exact h
    | dropGuard =>
      obtain ⟨e, outcome, -, -, rfl⟩ := dropGuard_some hstep
      exact h
    | tell =>
      obtain ⟨d, rfl⟩ := tell_some hstep
      exact h
    | shutdown =>
      simp only [System.step] at hstep
      split at hstep
      · cases hstep
        exact h
      · cases hstep
    | save | delete | write | release | cleaned | drained | take | awaited | giveUp =>
      exact absurd rfl hquiet

/-- Along a run in which the operation does not try to register. -/
theorem Waits.run {base : Nat} {events : List Event} (h : Waits id base s)
    (hother : ∀ server, .register server id ∉ events) (hrun : exec System.step events s = some t) :
    Waits id base t := by
  induction events generalizing s with
  | nil =>
    obtain rfl : s = t := by simpa using hrun
    exact h
  | cons event events ih =>
    obtain ⟨m, hm, hrun⟩ := exec_cons.mp hrun
    apply ih (h.step hm ?_) (fun server hmem => hother server (List.mem_cons_of_mem _ hmem)) hrun
    rintro server rfl
    exact hother server List.mem_cons_self

theorem waits_cancel (hnew : ∀ e ∈ s.entries, e.id ≠ id) :
    Waits id (s.filesCancel id).kept (s.filesCancel id) := by
  have hany : ¬ (s.entries.any fun e => e.id = id) = true := by
    rw [List.any_eq_true]
    rintro ⟨e, he, heq⟩
    exact hnew e he (of_decide_eq_true heq)
  rw [filesCancel, if_neg hany]
  exact Or.inl ⟨_, [], rfl, by simp⟩

/-- While its cancel waits, an operation does not start. -/
theorem register_waiting (hmem : id ∈ s.cancelled) (server : Uuid) :
    (s.register server id).2.entries = s.entries ∧ (s.register server id).1 ≠ .ok () := by
  have hcontains : s.cancelled.contains id = true := List.contains_iff_mem.mpr hmem
  unfold register
  split
  · exact ⟨rfl, by simp⟩
  · split
    · exact ⟨rfl, by simp⟩
    · exact ⟨rfl, by simp⟩

/-! ## A cancel of a running operation -/

/-- The operation has been told and its work is not looked at any more, or it has ended as
cancelled. -/
def Stopping (n : Nat) (s : System) : Prop :=
  (∃ e ∈ s.entries, e.serial = n ∧ e.cancel = true ∧
    (e.phase = .waiting ∨ e.phase = .ended .cancelled ∨ e.phase = .dropped .cancelled)) ∨
  (n, .cancelled) ∈ s.results

/-- What is left to show of a change of the operations. -/
theorem Stopping.map {n : Nat} (h : Stopping n s) {f : Operation → Operation} (hf : Keeps f)
    (hentries : t.entries = s.entries.map f) (hresults : t.results = s.results)
    (hphase : ∀ e ∈ s.entries, e.cancel = true →
      e.phase = .waiting ∨ e.phase = .ended .cancelled ∨ e.phase = .dropped .cancelled →
      (f e).phase = .waiting ∨ (f e).phase = .ended .cancelled ∨ (f e).phase = .dropped .cancelled) :
    Stopping n t := by
  obtain ⟨e, he, hn, hcancel, hp⟩ | hdone := h
  · refine Or.inl ⟨f e, ?_, ?_, hf.cancel e hcancel, hphase e he hcancel hp⟩
    · rw [hentries]
      exact List.mem_map_of_mem he
    · rw [hf.serial, hn]
  · right
    rw [hresults]
    exact hdone

theorem Stopping.same {n : Nat} (h : Stopping n s) (hentries : t.entries = s.entries)
    (hresults : t.results = s.results) : Stopping n t := by
  unfold Stopping
  rw [hentries, hresults]
  exact h

theorem Stopping.sent {n : Nat} (h : Stopping n s) (p : Operation → Bool)
    (hentries : t.entries = (s.update p send).entries) (hresults : t.results = s.results) :
    Stopping n t := by
  apply h.map (keeps_send.on p) hentries hresults
  intro e _ _ hp
  split
  · exact hp
  · exact hp

/-- A step of an operation that is being polled is not one of an operation that stops. -/
theorem Stopping.polling {start : Config} {n : Nat} {f : Operation → Operation} (h : Stopping n s)
    (hinv : Inv start s) (hf : Keeps f) (hstep : s.move id (fun e => e.phase = .polling) f = some t) :
    Stopping n t := by
  obtain ⟨ht, e', he', hid', hpolling⟩ := move_some hstep
  have hpolling : e'.phase = .polling := of_decide_eq_true hpolling
  rw [ht]
  apply h.map (t := s.update (fun e => e.id = id) f) (hf.on _) rfl rfl
  intro e he _ hp
  split
  next hid =>
    have hsame : e = e' := List.inj_on_of_nodup_map hinv.registry.ids he he'
      ((of_decide_eq_true hid).trans hid'.symm)
    rw [hsame, hpolling] at hp
    simp at hp
  next => exact hp

theorem Stopping.poll {n : Nat} (h : Stopping n s) (id : Uuid) :
    Stopping n (s.update (fun e => e.id = id) System.poll) := by
  apply h.map (t := s.update (fun e => e.id = id) System.poll) (keeps_phase.on _) rfl rfl
  intro e _ hcancel hp
  split
  · exact Or.inr (Or.inl rfl)
  · exact hp

theorem Stopping.dropWork {start : Config} {n : Nat} (h : Stopping n s) (hinv : Inv start s)
    (hstep : s.dropWork id = some t) : Stopping n t := by
  obtain ⟨e', outcome, he', hphase, ht⟩ := dropWork_some hstep
  obtain ⟨hmem', hid'⟩ := operation_some he'
  have hentries : t.entries =
      (s.update (fun e => e.id = id) fun e => { e with phase := .dropped outcome, staged := false }).entries := by
    rw [ht]
    split <;> rfl
  have hresults : t.results = s.results := by
    rw [ht]
    split <;> rfl
  apply h.map (keeps_dropped.on _) hentries hresults
  intro e he _ hp
  split
  next hid =>
    have hsame : e = e' := List.inj_on_of_nodup_map hinv.registry.ids he hmem'
      ((of_decide_eq_true hid).trans hid'.symm)
    rw [hsame, hphase] at hp
    obtain hp | hp | hp := hp
    · cases hp
    · cases hp
      exact Or.inr (Or.inr rfl)
    · cases hp
  next => exact hp

/-- The guard records how the operation ended. -/
theorem Stopping.dropGuard {start : Config} {n : Nat} (h : Stopping n s) (hinv : Inv start s)
    (hstep : s.dropGuard id = some t) : Stopping n t := by
  obtain ⟨e', outcome, he', hphase, rfl⟩ := dropGuard_some hstep
  obtain ⟨hmem', hid'⟩ := operation_some he'
  obtain ⟨e, he, hn, hcancel, hp⟩ | hdone := h
  · by_cases hid : e.id = id
    · have hsame : e = e' := List.inj_on_of_nodup_map hinv.registry.ids he hmem' (hid.trans hid'.symm)
      rw [hsame, hphase] at hp
      right
      obtain hp | hp | hp := hp
      · cases hp
      · cases hp
      · cases hp
        rw [← hn, hsame]
        exact List.mem_append_right _ List.mem_cons_self
    · exact Or.inl ⟨e, List.mem_filter.mpr ⟨he, decide_eq_true hid⟩, hn, hcancel, hp⟩
  · exact Or.inr (List.mem_append_left _ hdone)

/-- A registration refuses, or adds an operation while nothing is closing. -/
theorem register_cases (s : System) (server id : Uuid) :
    ((s.register server id).2.entries = s.entries ∨
      ∃ e, (s.register server id).2.entries = s.entries ++ [e] ∧ s.closing = false) ∧
    (s.register server id).2.results = s.results ∧ (s.register server id).2.closing = s.closing := by
  unfold register
  split
  · exact ⟨Or.inl rfl, rfl, rfl⟩
  · split
    · exact ⟨Or.inl rfl, rfl, rfl⟩
    next hopen =>
      split
      · exact ⟨Or.inl rfl, rfl, rfl⟩
      · split
        · exact ⟨Or.inl rfl, rfl, rfl⟩
        · split
          · exact ⟨Or.inl rfl, rfl, rfl⟩
          · exact ⟨Or.inr ⟨_, rfl, eq_false_of_ne_true hopen⟩, rfl, rfl⟩

theorem Stopping.register {n : Nat} (h : Stopping n s) (server id : Uuid) :
    Stopping n (s.register server id).2 := by
  obtain ⟨hsame | ⟨e', hadd, -⟩, hresults, -⟩ := register_cases s server id
  · exact h.same hsame hresults
  · obtain ⟨e, he, hrest⟩ | hdone := h
    · left
      rw [hadd]
      exact ⟨e, List.mem_append_left _ he, hrest⟩
    · right
      rw [hresults]
      exact hdone

theorem Stopping.step {start : Config} {n : Nat} (h : Stopping n s) (hinv : Inv start s)
    (hstep : s.step event = some t) : Stopping n t := by
  by_cases hquiet : event.quiet = true
  · have hsame := quiet_step hquiet hstep
    exact h.same hsame.entries hsame.results
  · cases event with
    | register server id =>
      simp only [System.step] at hstep
      split at hstep
      · cases hstep
        exact h.register server id
      · cases hstep
    | cancel id =>
      cases hstep
      unfold filesCancel
      split
      · exact h.sent _ rfl rfl
      · exact h.same rfl rfl
    | poll id =>
      rw [(move_some hstep).1]
      exact h.poll id
    | pending id => exact h.polling hinv keeps_phase hstep
    | ready id => exact h.polling hinv keeps_phase hstep
    | stage id => exact h.polling hinv keeps_staged hstep
    | publish id => exact h.polling hinv keeps_staged hstep
    | dropWork id => exact h.dropWork hinv hstep
    | dropGuard id => exact h.dropGuard hinv hstep
    | tell =>
      obtain ⟨d, rfl⟩ := tell_some hstep
      exact h.sent _ rfl rfl
    | shutdown =>
      simp only [System.step] at hstep
      split at hstep
      · cases hstep
        exact h.sent _ rfl rfl
      · cases hstep
    | save | delete | write | release | cleaned | drained | take | awaited | giveUp =>
      exact absurd rfl hquiet

theorem Stopping.run {start : Config} {n : Nat} {events : List Event} (h : Stopping n s)
    (hinv : Inv start s) (hrun : exec System.step events s = some t) : Stopping n t := by
  have hkeep : ∀ (u : System) (l : Event) (u' : System), (Stopping n u ∧ Inv start u) →
      u.step l = some u' → Stopping n u' ∧ Inv start u' := by
    intro u l u' hu hstep
    exact ⟨hu.1.step hu.2 hstep, inv_step hu.2 hstep⟩
  exact (exec_invariant hkeep ⟨h, hinv⟩ hrun).1

/-! ## No registration while closing -/

/-- What is registered was registered when the shutdown began. -/
def Closed (serials : List Nat) (s : System) : Prop :=
  s.closing = true ∧ ∀ e ∈ s.entries, e.serial ∈ serials

theorem Closed.map {serials : List Nat} (h : Closed serials s) {f : Operation → Operation}
    (hf : Keeps f) (hentries : t.entries = s.entries.map f) (hclosing : t.closing = true) :
    Closed serials t := by
  refine ⟨hclosing, fun e he => ?_⟩
  rw [hentries] at he
  obtain ⟨e₀, he₀, rfl⟩ := List.mem_map.mp he
  rw [hf.serial]
  exact h.2 e₀ he₀

theorem Closed.step {serials : List Nat} (h : Closed serials s) (hstep : s.step event = some t) :
    Closed serials t := by
  by_cases hquiet : event.quiet = true
  · have hsame := quiet_step hquiet hstep
    unfold Closed
    rw [hsame.entries, hsame.closing]
    exact h
  · cases event with
    | register server id =>
      simp only [System.step] at hstep
      split at hstep
      · cases hstep
        obtain ⟨hsame | ⟨e, -, hopen⟩, -, hclosing⟩ := register_cases s server id
        · unfold Closed
          rw [hsame, hclosing]
          exact h
        · rw [h.1] at hopen
          cases hopen
      · cases hstep
    | cancel id =>
      cases hstep
      unfold filesCancel
      split
      · exact h.map (keeps_send.on _) rfl h.1
      · exact h
    | poll id =>
      rw [(move_some hstep).1]
      exact h.map (keeps_phase.on _) rfl h.1
    | pending id =>
      rw [(move_some hstep).1]
      exact h.map (keeps_phase.on _) rfl h.1
    | ready id =>
      rw [(move_some hstep).1]
      exact h.map (keeps_phase.on _) rfl h.1
    | stage id =>
      rw [(move_some hstep).1]
      exact h.map (keeps_staged.on _) rfl h.1
    | publish id =>
      rw [(move_some hstep).1]
      exact h.map (keeps_staged.on _) rfl h.1
    | dropWork id =>
      obtain ⟨e, outcome, -, -, rfl⟩ := dropWork_some hstep
      split
      · exact h.map (keeps_dropped.on _) rfl h.1
      · exact h.map (keeps_dropped.on _) rfl h.1
    | dropGuard id =>
      obtain ⟨e, outcome, -, -, rfl⟩ := dropGuard_some hstep
      exact ⟨h.1, fun e he => h.2 e (List.mem_filter.mp he).1⟩
    | tell =>
      obtain ⟨d, rfl⟩ := tell_some hstep
      exact h.map (keeps_send.on _) rfl h.1
    | shutdown =>
      simp only [System.step] at hstep
      split at hstep
      · cases hstep
        exact h.map (keeps_send.on _) rfl rfl
      · cases hstep
    | save | delete | write | release | cleaned | drained | take | awaited | giveUp =>
      exact absurd rfl hquiet

theorem Closed.run {serials : List Nat} {events : List Event} (h : Closed serials s)
    (hrun : exec System.step events s = some t) : Closed serials t :=
  exec_invariant (fun _ _ _ hs hstep => hs.step hstep) h hrun

/-! ## What a cancel touches -/

/-- Other operations are as they were, and of the kept cancels the oldest of a full queue is given
up at most. -/
structure OthersKept (s t : System) (id : Uuid) : Prop where
  entries : ∀ e, e.id ≠ id → (e ∈ t.entries ↔ e ∈ s.entries)
  queue : ∀ other ∈ s.cancelled, other ∈ t.cancelled ∨
    (s.cancelled.length = maxCancelled ∧ s.cancelled.head? = some other)
  rest : t.closing = s.closing ∧ t.cleanup = s.cleanup ∧ t.tasks = s.tasks ∧ t.config = s.config ∧
    t.edit = s.edit ∧ t.shutdown = s.shutdown ∧ t.results = s.results

theorem filesCancel_others (s : System) (id : Uuid) : OthersKept s (s.filesCancel id) id := by
  unfold filesCancel
  split
  · refine ⟨fun e hne => ?_, fun other hmem => Or.inl hmem, rfl, rfl, rfl, rfl, rfl, rfl, rfl⟩
    constructor
    · intro he
      obtain ⟨e₀, he₀, rfl⟩ := List.mem_map.mp he
      by_cases hid : e₀.id = id
      · simp only [hid, decide_true, if_true, send] at hne
        exact absurd rfl hne
      · simpa only [hid, decide_false, Bool.false_eq_true, if_false] using he₀
    · intro he
      apply List.mem_map.mpr
      exact ⟨e, he, by simp [hne]⟩
  · refine ⟨fun e _ => Iff.rfl, fun other hmem => ?_, rfl, rfl, rfl, rfl, rfl, rfl, rfl⟩
    by_cases hmax : s.cancelled.length = maxCancelled
    · simp only [if_pos hmax]
      cases hqueue : s.cancelled with
      | nil =>
        rw [hqueue] at hmem
        cases hmem
      | cons c queue =>
        rw [hqueue] at hmem
        obtain rfl | hmem := List.mem_cons.mp hmem
        · right
          rw [hqueue] at hmax
          exact ⟨hmax, rfl⟩
        · exact Or.inl (List.mem_append_left _ hmem)
    · simp only [if_neg hmax]
      exact Or.inl (List.mem_append_left _ hmem)

/-! ## All of it -/

/-- What holds of a state: how many operations there are, what the ones that were not told to stop
were given, and what a shutdown that is through has waited for. -/
structure Governed (config : Config) (s : System) : Prop where
  few : s.entries.length ≤ 8
  once : (s.entries.map Operation.id).Nodup
  profile : ∀ e ∈ s.entries, savedBy config (s.writes.take e.seen) e.server = some e.profile
  /-- The operations of a server were registered after every edit of its connection, and after
  every deletion, that is through, or were told to stop. -/
  edited : ∀ e ∈ s.entries, e.cancel = false → ∀ i w, i < s.through → s.writes[i]? = some w →
    w.server = e.server → w.connection = true → i < e.seen
  cleaned : s.shutdown = .finished → s.entries = [] ∧ ∀ task ∈ s.tasks, task.finished = true

theorem governed {config : Config} (h : Inv config s) : Governed config s where
  few := h.registry.few
  once := h.registry.ids
  profile e he := (h.profiles.profile e he).2
  edited e he hcancel i w hi hw hs hc := by
    by_contra hseen
    have hthrough := (h.profiles.fresh e he hcancel i w (Nat.not_lt.mp hseen) hw hs hc).1
    omega
  cleaned hfinished := by
    refine ⟨h.ending.empty (by simp [hfinished]) (by simp [hfinished]) (by simp [hfinished]), ?_⟩
    intro task htask
    obtain ⟨n, hn⟩ := List.mem_iff_getElem?.mp htask
    cases hdone : task.finished with
    | true => rfl
    | false =>
      exfalso
      have hwatched := h.ending.watched n task hn hdone
      rw [h.ending.taken hfinished, hfinished] at hwatched
      obtain hmem | hheld | hout := hwatched
      · cases hmem
      · cases hheld
      · cases hout

/-- The end of an operation is recorded once. -/
theorem outcome_unique {config : Config} (h : Inv config s) {n : Nat} {o o' : Outcome}
    (ho : (n, o) ∈ s.results) (ho' : (n, o') ∈ s.results) : o = o' := by
  have heq := List.inj_on_of_nodup_map h.registry.once ho ho' rfl
  exact (Prod.mk.inj heq).2

/-- Whatever the order of registrations, cancels, edits, completions and shutdown. The parts are
about the state reached, about the cancel of an operation that is not registered, about one of a
running operation whose work is not being polled, about a shutdown that has begun, and about what
a cancel touches. -/
theorem operations_governed {config : Config} {events : List Event}
    (hrun : exec step events (initial config) = some s) :
    Governed config s ∧
    (∀ id, (∀ e ∈ s.entries, e.id ≠ id) → ∀ more t, (∀ server, .register server id ∉ more) →
      exec step more (s.filesCancel id) = some t → t.kept < (s.filesCancel id).kept + 128 →
      ∀ server, (t.register server id).2.entries = t.entries ∧ (t.register server id).1 ≠ .ok ()) ∧
    (∀ e ∈ s.entries, e.cancel = true → e.phase = .waiting → ∀ more t, exec step more s = some t →
      ((∃ e' ∈ t.entries, e'.serial = e.serial ∧ e'.cancel = true ∧
          (e'.phase = .waiting ∨ e'.phase = .ended .cancelled ∨ e'.phase = .dropped .cancelled)) ∨
        (e.serial, .cancelled) ∈ t.results) ∧ (e.serial, .done) ∉ t.results) ∧
    (s.closing = true → ∀ more t, exec step more s = some t →
      ∀ e ∈ t.entries, e.serial ∈ s.entries.map Operation.serial) ∧
    ∀ id, OthersKept s (s.filesCancel id) id := by
  have hinv := inv_run hrun
  refine ⟨governed hinv, ?_, ?_, ?_, filesCancel_others s⟩
  · intro id hnew more t hother hmore hkept server
    obtain ⟨before, behind, hqueue, -⟩ | hfull := (waits_cancel hnew).run hother hmore
    · apply register_waiting
      rw [hqueue]
      exact List.mem_append_right _ List.mem_cons_self
    · unfold maxCancelled at hfull
      omega
  · intro e he hcancel hwaiting more t hmore
    have hstop : Stopping e.serial s := Or.inl ⟨e, he, rfl, hcancel, Or.inl hwaiting⟩
    have hinv' : Inv config t := exec_invariant (fun _ _ _ h hstep => inv_step h hstep) hinv hmore
    have hstop' := hstop.run hinv hmore
    refine ⟨hstop', fun hdone => ?_⟩
    obtain ⟨e', he', hserial, -⟩ | hcancelled := hstop'
    · exact (hinv'.registry.ended _ hdone).2 e' he' hserial
    · cases outcome_unique hinv' hdone hcancelled
  · intro hclosing more t hmore
    have hclosed : Closed (s.entries.map Operation.serial) s :=
      ⟨hclosing, fun e he => List.mem_map_of_mem he⟩
    exact (hclosed.run hmore).2

end

/-! ## Runs that show it -/

def sampleServer : Server :=
  ⟨1, "Saved", "fixture", "fixture.example", 22, none, none, none, .publicKey, false, false⟩

def sampleConfig : Config := ⟨[sampleServer], []⟩

/-- An upload that is cancelled while it waits for the network, with its file removed. -/
def cancelledUpload : List Event :=
  [.register 1 7, .poll 7, .stage 7, .pending 7, .cancel 7, .poll 7, .dropWork 7, .dropGuard 7,
    .shutdown, .drained, .take, .cleaned 0, .awaited, .awaited]

theorem cancelledUpload_governed : ∃ s, exec step cancelledUpload (initial sampleConfig) = some s ∧
    s.results = [(0, .cancelled)] ∧ s.shutdown = .finished ∧ Governed sampleConfig s := by
  have hsome : (exec step cancelledUpload (initial sampleConfig)).any (fun s =>
      s.results = [(0, .cancelled)] ∧ s.shutdown = .finished) = true := by decide
  obtain ⟨s, hs, h⟩ := (Option.any_eq_true _ _).mp hsome
  obtain ⟨hresults, hshutdown⟩ := of_decide_eq_true h
  exact ⟨s, hs, hresults, hshutdown, (operations_governed hs).1⟩

/-- A cancel that as many others follow as the queue is long. -/
def lostCancel : List Event :=
  .cancel 0 :: ((List.range 128).map fun n => .cancel (BitVec.ofNat 128 (n + 1))) ++ [.register 1 0]

/-- A cancel that comes while the work is polled and becomes ready. -/
def lateCancel : List Event :=
  [.register 1 7, .poll 7, .cancel 7, .ready 7, .dropWork 7, .dropGuard 7]

/-- The server connects to another host now. -/
def movedServer : Server := { sampleServer with sshHost := "other.example" }

def editedServer : List Event :=
  [.register 1 7, .save movedServer false, .write true, .tell, .release]

/-- An operation starts that was cancelled before it registered; one that was cancelled while it
ran ends as done; and one with the old profile is still there when the edit is through. -/
theorem cancels_late :
    ((exec step lostCancel (initial sampleConfig)).any fun s =>
      s.entries.map (fun e => (e.id, e.cancel, e.phase)) = [(0, false, .waiting)]) = true ∧
    ((exec step lateCancel (initial sampleConfig)).any fun s => s.results = [(0, .done)]) = true ∧
    ((exec step editedServer (initial sampleConfig)).any fun s => s.edit.isNone ∧
      find s.config 1 = some movedServer ∧
      s.entries.map (fun e => (e.profile, e.phase)) = [(sampleServer, .waiting)]) = true := by
  refine ⟨?_, ?_, ?_⟩
  · decide +kernel
  · decide
  · decide

end System

end Porthop.Files
